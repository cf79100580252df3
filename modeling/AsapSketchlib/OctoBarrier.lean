/-
This file settles when `OctoRuntime::flush` is a barrier. A drain request is answered after a
pass of the aggregator that found every queue empty, but at a different moment for each: a
worker may flush into a queue that the pass has already left.

As long as no drain request is sent into such a pass, a flush that has returned has everything
applied that was acknowledged. A request sent into such a pass can be answered too early.
-/

import AsapSketchlib.OctoConservation
import AsapSketchlib.OctoRuntime

namespace AsapSketchlib

namespace WorkerThread

variable {Input Payload Worker Delta Parent : Type}

/-! ### What a thread is asked for -/

/-- How far a worker is with the flush of the caller. -/
inductive FlushStage where
  | unasked
  | awaited
  | acknowledged

/-- No flush request is under way to the worker or being handled by it. -/
structure Unasked (thread : WorkerThread Payload Worker Delta) : Prop where
  input : WorkerMsg.flush ∉ thread.input
  sending : ∀ deltas, thread.sending ≠ some (deltas, .acknowledge)

/-- A flush request is the last message to the worker, or is being handled. -/
def Awaited (thread : WorkerThread Payload Worker Delta) : Prop :=
  (∃ earlier, thread.input = earlier ++ [WorkerMsg.flush] ∧ WorkerMsg.flush ∉ earlier ∧
    ∀ deltas, thread.sending ≠ some (deltas, .acknowledge)) ∨
  thread.input = [] ∧ ∃ deltas, thread.sending = some (deltas, .acknowledge)

/-- The worker has nothing to do and has sent nothing since it acknowledged. -/
structure Acknowledged (thread : WorkerThread Payload Worker Delta) : Prop where
  input : thread.input = []
  sending : thread.sending = none
  ackedAt : thread.ackedAt = thread.emitted.length

def At (thread : WorkerThread Payload Worker Delta) : FlushStage → Prop
  | .unasked => thread.Unasked
  | .awaited => thread.Awaited
  | .acknowledged => thread.Acknowledged

/-- What holds of the history of a thread: a queue is first in, first out, a receiver is given up
only when nothing more can come, and an acknowledgement covers what was sent before. -/
structure Logged (thread : WorkerThread Payload Worker Delta) : Prop where
  fifo : thread.emitted = thread.applied ++ thread.queue
  acked : thread.ackedAt ≤ thread.emitted.length
  ended : thread.ended = true → thread.sending = none
  disconnected : thread.connected = false → thread.ended = true ∧ thread.queue = []

theorem Acknowledged.unasked {thread : WorkerThread Payload Worker Delta}
    (acknowledged : thread.Acknowledged) : thread.Unasked where
  input := acknowledged.input ▸ List.not_mem_nil
  sending := fun _ busy => absurd (acknowledged.sending.symm.trans busy) (Option.some_ne_none _).symm

theorem logged_spawn (sketch : Worker) :
    (spawn sketch : WorkerThread Payload Worker Delta).Logged where
  fifo := rfl
  acked := Nat.le_refl 0
  ended := fun _ => rfl
  disconnected := fun gone => absurd gone.symm Bool.false_ne_true

theorem unasked_spawn (sketch : Worker) :
    (spawn sketch : WorkerThread Payload Worker Delta).Unasked where
  input := List.not_mem_nil
  sending := fun _ => (Option.some_ne_none _).symm

/-! ### The steps of a thread -/

variable {traits : OctoTraits Input Payload Worker Delta Parent} {capacity threshold : ℕ}
  {before after : WorkerThread Payload Worker Delta}

theorem post_spec {message : WorkerMsg Payload} (posted : before.post capacity message = some after) :
    after = { before with input := before.input ++ [message] } := by
  unfold post at posted
  by_cases full : capacity ≤ before.input.length
  · rw [if_pos full] at posted
    exact absurd posted (Option.some_ne_none _).symm
  · rw [if_neg full] at posted
    exact (Option.some.inj posted).symm

/-- What comes after the deltas of a message. -/
def whenSent : WorkerMsg Payload → WhenSent
  | .data _ => .proceed
  | .flush => .acknowledge
  | .finish => .stop

theorem flush_of_whenSent {message : WorkerMsg Payload}
    (acknowledges : whenSent message = .acknowledge) : message = .flush := by
  cases message with
  | data payload => exact WhenSent.noConfusion acknowledges
  | flush => rfl
  | finish => exact WhenSent.noConfusion acknowledges

theorem answer_spec {message : WorkerMsg Payload} {result : Worker × List Delta × WhenSent}
    (answered : before.answer traits threshold message = some result) :
    result.2.2 = whenSent message := by
  cases message with
  | data payload =>
    obtain ⟨_, _, rfl⟩ := Option.map_eq_some_iff.mp answered
    rfl
  | flush =>
    cases Option.some.inj answered
    rfl
  | finish =>
    cases Option.some.inj answered
    rfl

theorem receive_spec (received : before.receive traits threshold = some after) :
    before.ended = false ∧ before.sending = none ∧ ∃ message rest sketch deltas,
      before.input = message :: rest ∧
      after = { before with
        input := rest, sketch := sketch, sending := some (deltas, whenSent message) } := by
  obtain ⟨free, taken⟩ := OctoState.of_guarded received
  obtain ⟨running, notBusy⟩ := Bool.or_eq_false_iff.mp free
  refine ⟨running, Option.not_isSome_iff_eq_none.mp (Bool.eq_false_iff.mp notBusy), ?_⟩
  cases messages : before.input with
  | nil =>
    rw [messages] at taken
    exact absurd taken (Option.some_ne_none _).symm
  | cons message rest =>
    rw [messages] at taken
    obtain ⟨result, answered, rfl⟩ := Option.map_eq_some_iff.mp taken
    refine ⟨message, rest, result.1, result.2.1, rfl, ?_⟩
    rw [← answer_spec answered]

theorem send_spec (sent : before.send capacity = some after) :
    ∃ delta rest next, before.sending = some (delta :: rest, next) ∧
      after = { before with
        sending := some (rest, next)
        queue := before.queue ++ [delta]
        emitted := before.emitted ++ [delta] } := by
  unfold send at sent
  by_cases full : capacity ≤ before.queue.length
  · rw [if_pos full] at sent
    exact absurd sent (Option.some_ne_none _).symm
  · rw [if_neg full] at sent
    cases busy : before.sending with
    | none =>
      rw [busy] at sent
      exact absurd sent (Option.some_ne_none _).symm
    | some work =>
      obtain ⟨deltas, next⟩ := work
      cases deltas with
      | nil =>
        rw [busy] at sent
        exact absurd sent (Option.some_ne_none _).symm
      | cons delta rest =>
        rw [busy] at sent
        exact ⟨delta, rest, next, rfl, (Option.some.inj sent).symm⟩

theorem at_receive {stage : FlushStage} (received : before.receive traits threshold = some after)
    (staged : before.At stage) : after.At stage := by
  obtain ⟨_, free, message, rest, sketch, deltas, messages, rfl⟩ := receive_spec received
  cases stage with
  | unasked =>
    refine ⟨fun member => staged.input (messages ▸ List.mem_cons_of_mem _ member), fun sent busy => ?_⟩
    have acknowledges : whenSent message = .acknowledge := (Prod.mk.inj (Option.some.inj busy)).2
    exact staged.input (messages ▸ flush_of_whenSent acknowledges ▸ List.mem_cons_self)
  | awaited =>
    rcases staged with ⟨earlier, last, only, _⟩ | ⟨nothing, _⟩
    · cases earlier with
      | nil =>
        obtain ⟨rfl, rfl⟩ := List.cons.inj (messages.symm.trans last)
        exact Or.inr ⟨rfl, deltas, rfl⟩
      | cons first others =>
        obtain ⟨rfl, rfl⟩ := List.cons.inj (messages.symm.trans last)
        refine Or.inl ⟨others, rfl, fun member => only (List.mem_cons_of_mem _ member),
          fun sent busy => ?_⟩
        have acknowledges : whenSent message = .acknowledge :=
          (Prod.mk.inj (Option.some.inj busy)).2
        exact only (flush_of_whenSent acknowledges ▸ List.mem_cons_self)
    · exact absurd (messages.symm.trans nothing) (List.cons_ne_nil _ _)
  | acknowledged => exact absurd (messages.symm.trans staged.input) (List.cons_ne_nil _ _)

theorem logged_receive (received : before.receive traits threshold = some after)
    (logged : before.Logged) : after.Logged := by
  obtain ⟨running, _, message, rest, sketch, deltas, _, rfl⟩ := receive_spec received
  exact ⟨logged.fifo, logged.acked, fun ended => absurd (running.symm.trans ended) Bool.false_ne_true,
    logged.disconnected⟩

theorem at_send {stage : FlushStage} (sent : before.send capacity = some after)
    (staged : before.At stage) : after.At stage := by
  obtain ⟨delta, rest, next, busy, rfl⟩ := send_spec sent
  have notAcknowledging : (∀ deltas, before.sending ≠ some (deltas, .acknowledge)) →
      ∀ deltas, some (rest, next) ≠ some (deltas, WhenSent.acknowledge) := by
    intro other deltas same
    obtain ⟨_, rfl⟩ := Prod.mk.inj (Option.some.inj same)
    exact other _ busy
  cases stage with
  | unasked => exact ⟨staged.input, notAcknowledging staged.sending⟩
  | awaited =>
    rcases staged with ⟨earlier, last, only, other⟩ | ⟨nothing, deltas, acknowledging⟩
    · exact Or.inl ⟨earlier, last, only, notAcknowledging other⟩
    · obtain ⟨_, rfl⟩ := Prod.mk.inj (Option.some.inj (busy.symm.trans acknowledging))
      exact Or.inr ⟨nothing, rest, rfl⟩
  | acknowledged => exact absurd (busy.symm.trans staged.sending) (Option.some_ne_none _)

theorem logged_send (sent : before.send capacity = some after) (logged : before.Logged) :
    after.Logged := by
  obtain ⟨delta, rest, next, busy, rfl⟩ := send_spec sent
  have running : before.ended ≠ true := fun ended =>
    Option.some_ne_none _ (busy.symm.trans (logged.ended ended))
  refine ⟨?_, ?_, fun ended => absurd ended running,
    fun gone => absurd (logged.disconnected gone).1 running⟩
  · show before.emitted ++ [delta] = before.applied ++ (before.queue ++ [delta])
    rw [logged.fifo, List.append_assoc]
  · show before.ackedAt ≤ (before.emitted ++ [delta]).length
    rw [List.length_append]
    exact Nat.le_add_right_of_le logged.acked

def FlushStage.settled : FlushStage → WhenSent → FlushStage
  | _, .acknowledge => .acknowledged
  | stage, _ => stage

theorem at_settle {stage : FlushStage} {next : WhenSent} (busy : before.sending = some ([], next))
    (staged : before.At stage) : (before.settle next).At (stage.settled next) ∧
      (next = .acknowledge → stage = .awaited) := by
  cases stage with
  | unasked =>
    have other : next ≠ .acknowledge := fun same => staged.sending [] (same ▸ busy)
    refine ⟨?_, fun same => absurd same other⟩
    cases next with
    | proceed => exact ⟨staged.input, fun _ => (Option.some_ne_none _).symm⟩
    | acknowledge => exact absurd rfl other
    | stop => exact ⟨staged.input, fun _ => (Option.some_ne_none _).symm⟩
  | awaited =>
    refine ⟨?_, fun _ => rfl⟩
    rcases staged with ⟨earlier, last, only, other⟩ | ⟨nothing, deltas, acknowledging⟩
    · cases next with
      | proceed => exact Or.inl ⟨earlier, last, only, fun _ => (Option.some_ne_none _).symm⟩
      | acknowledge => exact absurd busy (other [])
      | stop => exact Or.inl ⟨earlier, last, only, fun _ => (Option.some_ne_none _).symm⟩
    · obtain ⟨_, rfl⟩ := Prod.mk.inj (Option.some.inj (busy.symm.trans acknowledging))
      exact ⟨nothing, rfl, rfl⟩
  | acknowledged => exact absurd (busy.symm.trans staged.sending) (Option.some_ne_none _)

theorem logged_settle {next : WhenSent} (logged : before.Logged) (running : before.ended = false) :
    (before.settle next).Logged := by
  have connected : before.connected ≠ false := fun gone =>
    Bool.false_ne_true (running.symm.trans (logged.disconnected gone).1)
  cases next with
  | proceed => exact ⟨logged.fifo, logged.acked, fun _ => rfl, logged.disconnected⟩
  | acknowledge => exact ⟨logged.fifo, Nat.le_refl _, fun _ => rfl, logged.disconnected⟩
  | stop => exact ⟨logged.fifo, logged.acked, fun _ => rfl, fun gone => absurd gone connected⟩

theorem poll_spec (thread : WorkerThread Payload Worker Delta) (logged : thread.Logged) :
    (∃ delta rest, thread.queue = delta :: rest ∧ thread.poll =
      ({ thread with queue := rest, applied := thread.applied ++ [delta] }, some delta)) ∨
    (thread.queue = [] ∧ ∃ connected, (connected = false → thread.ended = true) ∧
      thread.poll = ({ thread with connected := connected }, none)) := by
  cases connected : thread.connected with
  | false =>
    obtain ⟨ended, empty⟩ := logged.disconnected connected
    refine Or.inr ⟨empty, false, fun _ => ended, ?_⟩
    rw [poll, connected, if_neg Bool.false_ne_true]
    cases thread
    cases connected
    rfl
  | true =>
    cases queued : thread.queue with
    | nil =>
      refine Or.inr ⟨rfl, !thread.ended, fun gone => by simpa using gone, ?_⟩
      rw [poll, connected, if_pos rfl, queued]
    | cons delta rest =>
      refine Or.inl ⟨delta, rest, rfl, ?_⟩
      rw [poll, connected, if_pos rfl, queued]

theorem at_poll {stage : FlushStage} (logged : before.Logged) (staged : before.At stage) :
    before.poll.1.At stage := by
  rcases poll_spec before logged with ⟨delta, rest, _, polled⟩ | ⟨_, connected, _, polled⟩
  · rw [polled]
    cases stage with
    | unasked => exact ⟨staged.input, staged.sending⟩
    | awaited => exact staged
    | acknowledged => exact ⟨staged.input, staged.sending, staged.ackedAt⟩
  · rw [polled]
    cases stage with
    | unasked => exact ⟨staged.input, staged.sending⟩
    | awaited => exact staged
    | acknowledged => exact ⟨staged.input, staged.sending, staged.ackedAt⟩

theorem logged_poll (logged : before.Logged) : before.poll.1.Logged := by
  rcases poll_spec before logged with ⟨delta, rest, queued, polled⟩ | ⟨empty, connected, gone, polled⟩
  · rw [polled]
    refine ⟨?_, logged.acked, logged.ended, fun lost => ?_⟩
    · show before.emitted = before.applied ++ [delta] ++ rest
      rw [logged.fifo, queued, List.append_assoc]
      rfl
    · exact absurd (queued.symm.trans (logged.disconnected lost).2) (List.cons_ne_nil _ _)
  · rw [polled]
    exact ⟨logged.fifo, logged.acked, logged.ended, fun lost => ⟨gone lost, empty⟩⟩

end WorkerThread

namespace OctoCaller

def asked : OctoCaller → ℕ → Bool
  | .flushing next, place => place < next
  | .collecting _, _ => true
  | .draining, _ => true
  | _, _ => false

end OctoCaller

namespace OctoRuntime

open WorkerThread

variable {Input Payload Worker Delta Parent : Type} {workers : ℕ}

/-! ### The invariant -/

def stage (state : OctoRuntime Payload Worker Delta Parent workers) (worker : Fin workers) :
    FlushStage :=
  if state.caller.asked worker then if worker ∈ state.acked then .acknowledged else .awaited
  else .unasked

/-- What holds between any two operations. The acknowledgements under way and collected are of
different workers; while the caller waits for the aggregator no worker has anything to do, and
the request is either unanswered, in a pass that will not answer it too early, or answered with
every queue empty. -/
structure Coherent (state : OctoRuntime Payload Worker Delta Parent workers) : Prop where
  logged : ∀ worker, (state.thread worker).Logged
  staged : ∀ worker, (state.thread worker).At (state.stage worker)
  flushing : ∀ next, state.caller = .flushing next →
    state.acked.card = state.acks ∧ ∀ worker ∈ state.acked, worker.val < next
  collecting : ∀ count, state.caller = .collecting count → state.acked.card = count + state.acks
  everyone : state.caller = .draining → state.acked = Finset.univ
  silent : state.caller ≠ .draining → state.control = false ∧ state.drained = false
  answered : state.caller = .draining →
    state.control = true ∧ state.drained = false ∧ state.Timely ∨
      state.control = false ∧ state.drained = true ∧ ∀ worker, (state.thread worker).queue = []
  returned : state.caller = .returned →
    ∀ worker, (state.thread worker).ackedAt ≤ (state.thread worker).applied.length

theorem coherent_start (threshold : ℕ) (workerOf : Fin workers → Worker) (parent : Parent) :
    (start threshold workerOf parent :
      OctoRuntime Payload Worker Delta Parent workers).Coherent where
  logged := fun worker => logged_spawn (workerOf worker)
  staged := fun worker => unasked_spawn (workerOf worker)
  flushing := fun _ flushing => OctoCaller.noConfusion flushing
  collecting := fun _ collecting => OctoCaller.noConfusion collecting
  everyone := fun draining => OctoCaller.noConfusion draining
  silent := fun _ => ⟨rfl, rfl⟩
  answered := fun draining => OctoCaller.noConfusion draining
  returned := fun returned => OctoCaller.noConfusion returned

variable {state : OctoRuntime Payload Worker Delta Parent workers}

theorem Coherent.barrier (coherent : state.Coherent) : state.Barrier := by
  intro returned worker
  rw [(coherent.logged worker).fifo, List.take_append_of_le_length (coherent.returned returned worker)]
  exact List.take_prefix _ _

theorem Coherent.acknowledged (coherent : state.Coherent) (draining : state.caller = .draining)
    (worker : Fin workers) : (state.thread worker).Acknowledged := by
  have staged := coherent.staged worker
  have stageEq : state.stage worker = .acknowledged := by
    rw [stage, draining, coherent.everyone draining]
    exact if_pos (Finset.mem_univ worker)
  rw [stageEq] at staged
  exact staged

theorem Coherent.unasked (coherent : state.Coherent)
    (unasked : ∀ worker, state.stage worker = .unasked) (worker : Fin workers) :
    (state.thread worker).Unasked := by
  have staged := coherent.staged worker
  rw [unasked] at staged
  exact staged

theorem stage_of_ready (ready : state.ready = true) (worker : Fin workers) :
    state.stage worker = .unasked := by
  rcases (Bool.or_eq_true _ _).mp ready with idle | returned
  · rw [stage, of_decide_eq_true idle]
    rfl
  · rw [stage, of_decide_eq_true returned]
    rfl

theorem coherent_setThread (coherent : state.Coherent) {worker : Fin workers}
    {thread : WorkerThread Payload Worker Delta} (logged : thread.Logged)
    (staged : thread.At (state.stage worker))
    (sameQueue : state.caller = .draining → thread.queue = (state.thread worker).queue)
    (covered : state.caller = .returned → thread.ackedAt ≤ thread.applied.length) :
    (state.setThread worker thread).Coherent where
  logged := (Function.forall_update_iff state.thread fun _ thread => thread.Logged).mpr
    ⟨logged, fun other _ => coherent.logged other⟩
  staged := (Function.forall_update_iff state.thread fun other thread =>
    thread.At (state.stage other)).mpr ⟨staged, fun other _ => coherent.staged other⟩
  flushing := coherent.flushing
  collecting := coherent.collecting
  everyone := coherent.everyone
  silent := coherent.silent
  answered := by
    intro draining
    have queues : ∀ other, (Function.update state.thread worker thread other).queue =
        (state.thread other).queue := (Function.forall_update_iff state.thread fun other thread =>
      thread.queue = (state.thread other).queue).mpr ⟨sameQueue draining, fun _ _ => rfl⟩
    rcases coherent.answered draining with ⟨asking, unanswered, timely⟩ | ⟨gone, given, empty⟩
    · refine Or.inl ⟨asking, unanswered, ?_⟩
      unfold Timely setThread
      simp only [queues]
      exact timely
    · exact Or.inr ⟨gone, given, fun other => (queues other).trans (empty other)⟩
  returned := fun returned => (Function.forall_update_iff state.thread fun _ thread =>
    thread.ackedAt ≤ thread.applied.length).mpr
      ⟨covered returned, fun other _ => coherent.returned returned other⟩

/-! ### The steps of the caller -/

theorem coherent_outside {next : OctoCaller}
    (outside : next = .idle ∨ ∃ place, next = .closing place) (here : state.caller = next)
    (logged : ∀ worker, (state.thread worker).Logged)
    (unasked : ∀ worker, (state.thread worker).Unasked)
    (silent : state.control = false ∧ state.drained = false) : state.Coherent := by
  have stageEq : ∀ worker, state.stage worker = .unasked := by
    intro worker
    rcases outside with rfl | ⟨place, rfl⟩
    · rw [stage, here]
      rfl
    · rw [stage, here]
      rfl
  have notThere : ∀ caller, caller ≠ .idle → (∀ place, caller ≠ .closing place) →
      state.caller ≠ caller := by
    rintro caller notIdle notClosing rfl
    rcases outside with rfl | ⟨place, rfl⟩
    · exact notIdle here
    · exact notClosing place here
  exact
    { logged := logged
      staged := fun worker => (stageEq worker).symm ▸ unasked worker
      flushing := fun place flushing => absurd flushing (notThere _ nofun nofun)
      collecting := fun count collecting => absurd collecting (notThere _ nofun nofun)
      everyone := fun draining => absurd draining (notThere _ nofun nofun)
      silent := fun _ => silent
      answered := fun draining => absurd draining (notThere _ nofun nofun)
      returned := fun returned => absurd returned (notThere _ nofun nofun) }

theorem logged_post {thread : WorkerThread Payload Worker Delta} (logged : thread.Logged)
    (message : WorkerMsg Payload) :
    ({ thread with input := thread.input ++ [message] } :
      WorkerThread Payload Worker Delta).Logged :=
  ⟨logged.fifo, logged.acked, logged.ended, logged.disconnected⟩

theorem unasked_post {thread : WorkerThread Payload Worker Delta} (unasked : thread.Unasked)
    {message : WorkerMsg Payload} (other : message ≠ .flush) :
    ({ thread with input := thread.input ++ [message] } :
      WorkerThread Payload Worker Delta).Unasked := by
  refine ⟨fun member => ?_, unasked.sending⟩
  rcases List.mem_append.mp member with earlier | last
  · exact unasked.input earlier
  · exact other (List.mem_singleton.mp last).symm

theorem coherent_post (coherent : state.Coherent) (notDraining : state.caller ≠ .draining)
    (unasked : ∀ worker, state.stage worker = .unasked) {next : OctoCaller}
    (outside : next = .idle ∨ ∃ place, next = .closing place) {message : WorkerMsg Payload}
    (other : message ≠ .flush) {capacity : ℕ} {worker : Fin workers}
    {thread : WorkerThread Payload Worker Delta}
    (posted : (state.thread worker).post capacity message = some thread) :
    ({ state.setThread worker thread with caller := next } :
      OctoRuntime Payload Worker Delta Parent workers).Coherent := by
  obtain rfl := post_spec posted
  have unaskedBefore := coherent.unasked unasked
  refine coherent_outside outside rfl ?_ ?_ (coherent.silent notDraining)
  · exact (Function.forall_update_iff state.thread fun _ thread => thread.Logged).mpr
      ⟨logged_post (coherent.logged worker) message, fun other _ => coherent.logged other⟩
  · exact (Function.forall_update_iff state.thread fun _ thread => thread.Unasked).mpr
      ⟨unasked_post (unaskedBefore worker) other, fun other _ => unaskedBefore other⟩

theorem not_draining_of_ready (ready : state.ready = true) : state.caller ≠ .draining := by
  intro draining
  rcases (Bool.or_eq_true _ _).mp ready with idle | returned
  · exact OctoCaller.noConfusion (draining.symm.trans (of_decide_eq_true idle))
  · exact OctoCaller.noConfusion (draining.symm.trans (of_decide_eq_true returned))

variable {traits : OctoTraits Input Payload Worker Delta Parent} {capacity : ℕ}
  {after : OctoRuntime Payload Worker Delta Parent workers}

section

variable (coherent : state.Coherent)

include coherent

theorem coherent_insert {worker : Fin workers} {input : Input}
    (stepped : state.insert traits capacity worker input = some after) : after.Coherent := by
  obtain ⟨free, sent⟩ := OctoState.of_guarded stepped
  have ready : state.ready = true := by simpa using (Bool.or_eq_false_iff.mp free).1
  obtain ⟨thread, posted, rfl⟩ := Option.map_eq_some_iff.mp sent
  have other : WorkerMsg.data (traits.prepare input) ≠ .flush := nofun
  exact coherent_post coherent (not_draining_of_ready ready) (stage_of_ready ready) (Or.inl rfl)
    other posted

theorem coherent_beginFlush (stepped : state.beginFlush = some after) : after.Coherent := by
  obtain ⟨free, begun⟩ := OctoState.of_guarded stepped
  have ready : state.ready = true := by simpa using free
  have silent := coherent.silent (not_draining_of_ready ready)
  have unasked := coherent.unasked (stage_of_ready ready)
  obtain rfl := (Option.some.inj begun).symm
  have logged : ∀ worker, ({ state.thread worker with ackedAt := 0 } :
      WorkerThread Payload Worker Delta).Logged := fun worker =>
    ⟨(coherent.logged worker).fifo, Nat.zero_le _, (coherent.logged worker).ended,
      (coherent.logged worker).disconnected⟩
  cases closed : state.closed with
  | true =>
    exact
      { logged := logged
        staged := fun worker => ⟨(unasked worker).input, (unasked worker).sending⟩
        flushing := fun _ flushing => OctoCaller.noConfusion flushing
        collecting := fun _ collecting => OctoCaller.noConfusion collecting
        everyone := fun draining => OctoCaller.noConfusion draining
        silent := fun _ => silent
        answered := fun draining => OctoCaller.noConfusion draining
        returned := fun _ worker => Nat.zero_le _ }
  | false =>
    exact
      { logged := logged
        staged := fun worker => ⟨(unasked worker).input, (unasked worker).sending⟩
        flushing := fun _ _ => ⟨Finset.card_empty, fun _ member => absurd member (Finset.notMem_empty _)⟩
        collecting := fun _ collecting => OctoCaller.noConfusion collecting
        everyone := fun draining => OctoCaller.noConfusion draining
        silent := fun _ => silent
        answered := fun draining => OctoCaller.noConfusion draining
        returned := fun returned => OctoCaller.noConfusion returned }

theorem coherent_beginClose (stepped : state.beginClose = some after) : after.Coherent := by
  obtain ⟨free, begun⟩ := OctoState.of_guarded stepped
  have ready : state.ready = true := by simpa using free
  have unasked := coherent.unasked (stage_of_ready ready)
  obtain rfl := (Option.some.inj begun).symm
  refine coherent_outside ?_ rfl coherent.logged unasked
    (coherent.silent (not_draining_of_ready ready))
  cases state.closed with
  | true => exact Or.inl rfl
  | false => exact Or.inr ⟨0, rfl⟩

theorem coherent_sendEnd {worker : Fin workers}
    (stepped : state.sendEnd capacity worker = some after) : after.Coherent := by
  by_cases elsewhere : state.caller ≠ .closing worker
  · rw [sendEnd, if_pos elsewhere] at stepped
    exact absurd stepped (Option.some_ne_none _).symm
  · rw [sendEnd, if_neg elsewhere] at stepped
    have here := not_not.mp elsewhere
    obtain ⟨thread, posted, rfl⟩ := Option.map_eq_some_iff.mp stepped
    have other : (WorkerMsg.finish : WorkerMsg Payload) ≠ .flush := nofun
    refine coherent_post coherent (fun draining => OctoCaller.noConfusion (here.symm.trans draining))
      (fun worker => ?_) ?_ other posted
    · rw [stage, here]
      rfl
    · by_cases last : worker.val + 1 = workers
      · exact Or.inl (if_pos last)
      · exact Or.inr ⟨worker + 1, if_neg last⟩

theorem coherent_sendFlush {worker : Fin workers}
    (stepped : state.sendFlush capacity worker = some after) : after.Coherent := by
  by_cases elsewhere : state.caller ≠ .flushing worker
  · rw [sendFlush, if_pos elsewhere] at stepped
    exact absurd stepped (Option.some_ne_none _).symm
  · rw [sendFlush, if_neg elsewhere] at stepped
    have here := not_not.mp elsewhere
    obtain ⟨thread, posted, rfl⟩ := Option.map_eq_some_iff.mp stepped
    obtain rfl := post_spec posted
    obtain ⟨counted, below⟩ := coherent.flushing worker here
    have unasked : (state.thread worker).Unasked := by
      have staged := coherent.staged worker
      rw [stage, here] at staged
      rw [if_neg (by simp [OctoCaller.asked])] at staged
      exact staged
    have notAcked : worker ∉ state.acked := fun member => Nat.lt_irrefl _ (below worker member)
    have next : ∀ other : Fin workers, other ≠ worker →
        OctoCaller.asked (if worker.val + 1 = workers then .collecting 0
          else .flushing (worker + 1)) other = OctoCaller.asked (.flushing worker) other := by
      intro other different
      have differs : other.val ≠ worker.val := fun same => different (Fin.ext same)
      by_cases last : worker.val + 1 = workers
      · rw [if_pos last]
        have before : other.val < worker.val := by omega
        exact (decide_eq_true before).symm
      · rw [if_neg last]
        exact decide_eq_decide.mpr (by omega)
    have nextHere : OctoCaller.asked (if worker.val + 1 = workers then .collecting 0
        else .flushing (worker + 1)) worker = true := by
      by_cases last : worker.val + 1 = workers
      · rw [if_pos last]
        rfl
      · rw [if_neg last]
        exact decide_eq_true (Nat.lt_succ_self _)
    have silent := coherent.silent fun draining => OctoCaller.noConfusion (here.symm.trans draining)
    refine ⟨?_, ?_, ?_, ?_, ?_, fun _ => silent, ?_, ?_⟩
    · exact (Function.forall_update_iff state.thread fun _ thread => thread.Logged).mpr
        ⟨logged_post (coherent.logged worker) .flush, fun other _ => coherent.logged other⟩
    · refine (Function.forall_update_iff state.thread fun other thread => thread.At (if
        OctoCaller.asked (if worker.val + 1 = workers then .collecting 0
          else .flushing (worker + 1)) other
        then if other ∈ state.acked then .acknowledged else .awaited else .unasked)).mpr
          ⟨?_, fun other different => ?_⟩
      · rw [nextHere, if_pos rfl, if_neg notAcked]
        exact Or.inl ⟨(state.thread worker).input, rfl, unasked.input, unasked.sending⟩
      · have staged := coherent.staged other
        rw [stage, here] at staged
        rw [next other different]
        exact staged
    · intro place flushing
      by_cases last : worker.val + 1 = workers
      · exact OctoCaller.noConfusion ((if_pos last).symm.trans flushing)
      · obtain rfl := OctoCaller.flushing.inj ((if_neg last).symm.trans flushing)
        exact ⟨counted, fun other member => Nat.lt_succ_of_lt (below other member)⟩
    · intro count collecting
      by_cases last : worker.val + 1 = workers
      · obtain rfl := OctoCaller.collecting.inj ((if_pos last).symm.trans collecting)
        rw [Nat.zero_add]
        exact counted
      · exact OctoCaller.noConfusion ((if_neg last).symm.trans collecting)
    · intro draining
      by_cases last : worker.val + 1 = workers
      · exact OctoCaller.noConfusion ((if_pos last).symm.trans draining)
      · exact OctoCaller.noConfusion ((if_neg last).symm.trans draining)
    · intro draining
      by_cases last : worker.val + 1 = workers
      · exact OctoCaller.noConfusion ((if_pos last).symm.trans draining)
      · exact OctoCaller.noConfusion ((if_neg last).symm.trans draining)
    · intro returned
      by_cases last : worker.val + 1 = workers
      · exact OctoCaller.noConfusion ((if_pos last).symm.trans returned)
      · exact OctoCaller.noConfusion ((if_neg last).symm.trans returned)

theorem coherent_receiveAck {count : ℕ} (stepped : state.receiveAck count = some after) :
    after.Coherent := by
  obtain ⟨free, received⟩ := OctoState.of_guarded stepped
  obtain ⟨elsewhere, nothing⟩ := Bool.or_eq_false_iff.mp free
  have here : state.caller = .collecting count := by
    simpa using (Bool.or_eq_false_iff.mp elsewhere).1
  have waiting : state.acks ≠ 0 := of_decide_eq_false nothing
  have counted := coherent.collecting count here
  cases Option.some.inj received
  refine ⟨coherent.logged, fun worker => ?_, fun _ flushing => OctoCaller.noConfusion flushing,
    fun later collecting => ?_, fun draining => OctoCaller.noConfusion draining,
    fun _ => coherent.silent (here ▸ nofun), fun draining => OctoCaller.noConfusion draining,
    fun returned => OctoCaller.noConfusion returned⟩
  · have staged := coherent.staged worker
    rw [stage, here] at staged
    exact staged
  · obtain rfl := OctoCaller.collecting.inj collecting
    show state.acked.card = count + 1 + (state.acks - 1)
    omega

theorem coherent_sendDrain (timely : state.Timely) (stepped : state.sendDrain = some after) :
    after.Coherent := by
  obtain ⟨free, sent⟩ := OctoState.of_guarded stepped
  have here : state.caller = .collecting workers := by
    simpa using (Bool.or_eq_false_iff.mp free).1
  have counted := coherent.collecting workers here
  have everyone : state.acked = Finset.univ := by
    refine Finset.eq_univ_of_card _ (le_antisymm (Finset.card_le_univ _) ?_)
    rw [Fintype.card_fin, counted]
    exact Nat.le_add_right _ _
  cases Option.some.inj sent
  refine ⟨coherent.logged, fun worker => ?_, fun _ flushing => OctoCaller.noConfusion flushing,
    fun _ collecting => OctoCaller.noConfusion collecting, fun _ => everyone,
    fun notDraining => absurd rfl notDraining,
    fun _ => Or.inl ⟨rfl, (coherent.silent (here ▸ nofun)).2, timely⟩,
    fun returned => OctoCaller.noConfusion returned⟩
  have staged := coherent.staged worker
  rw [stage, here] at staged
  exact staged

theorem coherent_receiveDrain (stepped : state.receiveDrain = some after) : after.Coherent := by
  obtain ⟨free, received⟩ := OctoState.of_guarded stepped
  obtain ⟨there, given⟩ := Bool.or_eq_false_iff.mp free
  have draining : state.caller = .draining := by simpa using there
  have drained : state.drained = true := by simpa using given
  have acknowledged := coherent.acknowledged draining
  obtain ⟨_, unanswered, _⟩ | ⟨gone, _, empty⟩ := coherent.answered draining
  · exact absurd (unanswered.symm.trans drained) Bool.false_ne_true
  cases Option.some.inj received
  refine ⟨coherent.logged, fun worker => (acknowledged worker).unasked,
    fun _ flushing => OctoCaller.noConfusion flushing,
    fun _ collecting => OctoCaller.noConfusion collecting,
    fun draining => OctoCaller.noConfusion draining, fun _ => ⟨gone, rfl⟩,
    fun draining => OctoCaller.noConfusion draining, fun _ worker => ?_⟩
  have everything := (coherent.logged worker).fifo
  rw [empty worker, List.append_nil] at everything
  exact le_of_eq ((acknowledged worker).ackedAt.trans (congrArg List.length everything))

end

/-! ### The steps of the workers -/

theorem coherent_receive (coherent : state.Coherent) {worker : Fin workers} {thread}
    (received : (state.thread worker).receive traits state.threshold = some thread) :
    (state.setThread worker thread).Coherent := by
  obtain ⟨_, _, message, rest, sketch, deltas, _, rfl⟩ := receive_spec received
  exact coherent_setThread coherent (logged_receive received (coherent.logged worker))
    (at_receive received (coherent.staged worker)) (fun _ => rfl)
    fun returned => coherent.returned returned worker

theorem coherent_send (coherent : state.Coherent) {worker : Fin workers} {thread}
    (sent : (state.thread worker).send capacity = some thread) :
    (state.setThread worker thread).Coherent := by
  obtain ⟨delta, rest, next, busy, rfl⟩ := send_spec sent
  refine coherent_setThread coherent (logged_send sent (coherent.logged worker))
    (at_send sent (coherent.staged worker)) (fun draining => ?_)
    fun returned => coherent.returned returned worker
  exact absurd (busy.symm.trans (coherent.acknowledged draining worker).sending)
    (Option.some_ne_none _)

theorem settle_spec {worker : Fin workers} (stepped : state.settle worker = some after) :
    ∃ next, (state.thread worker).sending = some ([], next) ∧
      after = if next = .acknowledge then
        { state.setThread worker ((state.thread worker).settle next) with
          acks := state.acks + 1, acked := state.acked ∪ {worker} }
      else state.setThread worker ((state.thread worker).settle next) := by
  unfold settle at stepped
  cases busy : (state.thread worker).sending with
  | none =>
    rw [busy] at stepped
    exact absurd stepped (Option.some_ne_none _).symm
  | some work =>
    obtain ⟨deltas, next⟩ := work
    cases deltas with
    | cons delta rest =>
      rw [busy] at stepped
      exact absurd stepped (Option.some_ne_none _).symm
    | nil =>
      rw [busy] at stepped
      refine ⟨next, rfl, ?_⟩
      by_cases acknowledges : next = .acknowledge
      · rw [if_pos acknowledges]
        exact ((if_pos acknowledges).symm.trans stepped |> Option.some.inj).symm
      · rw [if_neg acknowledges]
        exact ((if_neg acknowledges).symm.trans stepped |> Option.some.inj).symm

theorem awaited_spec {worker : Fin workers} (awaited : state.stage worker = .awaited) :
    state.caller.asked worker = true ∧ worker ∉ state.acked := by
  unfold stage at awaited
  by_cases asked : state.caller.asked worker
  · rw [if_pos asked] at awaited
    refine ⟨asked, fun member => ?_⟩
    rw [if_pos member] at awaited
    exact FlushStage.noConfusion awaited
  · rw [if_neg asked] at awaited
    exact FlushStage.noConfusion awaited

theorem coherent_settle (coherent : state.Coherent) {worker : Fin workers}
    (stepped : state.settle worker = some after) : after.Coherent := by
  obtain ⟨next, busy, rfl⟩ := settle_spec stepped
  have running : (state.thread worker).ended = false := Bool.eq_false_iff.mpr fun ended =>
    Option.some_ne_none _ (busy.symm.trans ((coherent.logged worker).ended ended))
  have logged : ((state.thread worker).settle next).Logged :=
    logged_settle (coherent.logged worker) running
  obtain ⟨staged, awaited⟩ := at_settle busy (coherent.staged worker)
  by_cases acknowledges : next = .acknowledge
  · obtain ⟨asked, fresh⟩ := awaited_spec (awaited acknowledges)
    rw [if_pos acknowledges]
    subst acknowledges
    have counted : (state.acked ∪ {worker}).card = state.acked.card + 1 := by
      rw [Finset.union_comm, ← Finset.insert_eq, Finset.card_insert_of_notMem fresh]
    have notDraining : state.caller ≠ .draining := fun draining =>
      fresh (coherent.everyone draining ▸ Finset.mem_univ worker)
    refine ⟨?_, ?_, fun place flushing => ?_, fun count collecting => ?_,
      fun draining => absurd draining notDraining, coherent.silent,
      fun draining => absurd draining notDraining, fun returned => ?_⟩
    · exact (Function.forall_update_iff state.thread fun _ thread => thread.Logged).mpr
        ⟨logged, fun other _ => coherent.logged other⟩
    · refine (Function.forall_update_iff state.thread fun other thread => thread.At
        (if state.caller.asked other then
          if other ∈ state.acked ∪ {worker} then .acknowledged else .awaited
        else .unasked)).mpr ⟨?_, fun other different => ?_⟩
      · rw [if_pos asked, if_pos (Finset.mem_union_right _ (Finset.mem_singleton_self worker))]
        exact staged
      · have sameMember : (other ∈ state.acked ∪ {worker}) = (other ∈ state.acked) := by
          rw [Finset.mem_union, Finset.mem_singleton, or_iff_left different]
        simp only [sameMember]
        exact coherent.staged other
    · obtain ⟨acks, below⟩ := coherent.flushing place flushing
      refine ⟨counted.trans (congrArg (· + 1) acks), fun other member => ?_⟩
      rcases Finset.mem_union.mp member with earlier | new
      · exact below other earlier
      · obtain rfl := Finset.mem_singleton.mp new
        rw [show state.caller = .flushing place from flushing] at asked
        exact of_decide_eq_true asked
    · rw [counted, coherent.collecting count collecting]
      rfl
    · rw [show state.caller = .returned from returned] at asked
      exact absurd asked Bool.false_ne_true
  · rw [if_neg acknowledges]
    refine coherent_setThread coherent logged ?_ (fun _ => ?_) fun returned => ?_
    · cases next with
      | proceed => exact staged
      | acknowledge => exact absurd rfl acknowledges
      | stop => exact staged
    · cases next with
      | proceed => rfl
      | acknowledge => exact absurd rfl acknowledges
      | stop => rfl
    · cases next with
      | proceed => exact coherent.returned returned worker
      | acknowledge => exact absurd rfl acknowledges
      | stop => exact coherent.returned returned worker

/-! ### The steps of the aggregator -/

/-- A poll keeps a pass from answering too early. -/
theorem coherent_poll (coherent : state.Coherent) {worker : Fin workers}
    (stepped : state.poll traits worker = some after) : after.Coherent := by
  obtain ⟨free, polled⟩ := OctoState.of_guarded stepped
  have here : state.pass.next = worker.val := by
    simpa using (Bool.or_eq_false_iff.mp free).2
  cases Option.some.inj polled
  have logged := coherent.logged worker
  have queues : ∀ other, other ≠ worker →
      (Function.update state.thread worker (state.thread worker).poll.1 other).queue =
        (state.thread other).queue := fun other different => by rw [Function.update_of_ne different]
  refine ⟨?_, ?_, coherent.flushing, coherent.collecting, coherent.everyone, coherent.silent,
    fun draining => ?_, fun returned => ?_⟩
  · exact (Function.forall_update_iff state.thread fun _ thread => thread.Logged).mpr
      ⟨logged_poll logged, fun other _ => coherent.logged other⟩
  · exact (Function.forall_update_iff state.thread fun other thread =>
      thread.At (state.stage other)).mpr
        ⟨at_poll logged (coherent.staged worker), fun other _ => coherent.staged other⟩
  · rcases poll_spec (state.thread worker) logged with
      ⟨delta, rest, queued, polledEq⟩ | ⟨empty, connected, _, polledEq⟩
    · rcases coherent.answered draining with ⟨asking, unanswered, _⟩ | ⟨_, _, nothing⟩
      · refine Or.inl ⟨asking, unanswered, Or.inl ?_⟩
        show (state.pass.madeProgress || (state.thread worker).poll.2.isSome) = true
        rw [polledEq, Option.isSome_some, Bool.or_true]
      · exact absurd (queued.symm.trans (nothing worker)) (List.cons_ne_nil _ _)
    · have stillEmpty : (Function.update state.thread worker
          (state.thread worker).poll.1 worker).queue = [] := by
        rw [Function.update_self, polledEq]
        exact empty
      have allQueues : ∀ other, (Function.update state.thread worker
          (state.thread worker).poll.1 other).queue = (state.thread other).queue := by
        intro other
        by_cases same : other = worker
        · subst same
          exact stillEmpty.trans empty.symm
        · exact queues other same
      rcases coherent.answered draining with ⟨asking, unanswered, timely⟩ | ⟨gone, given, nothing⟩
      · refine Or.inl ⟨asking, unanswered, ?_⟩
        rcases timely with made | ⟨later, notPassed, waiting⟩ | passed
        · refine Or.inl ?_
          show (state.pass.madeProgress || _) = true
          rw [made, Bool.true_or]
        · refine Or.inr (Or.inl ⟨later, ?_, (allQueues later).symm ▸ waiting⟩)
          have different : later.val ≠ worker.val := fun same =>
            waiting (Fin.ext same ▸ empty)
          exact Nat.lt_of_le_of_ne (here ▸ notPassed) (Ne.symm different)
        · refine Or.inr (Or.inr fun other below => (allQueues other).trans ?_)
          rcases Nat.lt_succ_iff_lt_or_eq.mp below with earlier | same
          · exact passed other (here ▸ earlier)
          · exact Fin.ext same ▸ empty
      · exact Or.inr ⟨gone, given, fun other => (allQueues other).trans (nothing other)⟩
  · refine (Function.forall_update_iff state.thread fun _ thread =>
      thread.ackedAt ≤ thread.applied.length).mpr ⟨?_, fun other _ => coherent.returned returned other⟩
    rcases poll_spec (state.thread worker) logged with
      ⟨delta, rest, queued, polledEq⟩ | ⟨empty, connected, _, polledEq⟩
    · rw [polledEq]
      show (state.thread worker).ackedAt ≤ ((state.thread worker).applied ++ [delta]).length
      rw [List.length_append]
      exact Nat.le_add_right_of_le (coherent.returned returned worker)
    · rw [polledEq]
      exact coherent.returned returned worker

/-- A pass that ends without progress answers only if every queue is empty. -/
theorem coherent_endPass (coherent : state.Coherent) (stepped : state.endPass = some after) :
    after.Coherent := by
  obtain ⟨free, ended⟩ := OctoState.of_guarded stepped
  have here : state.pass.next = workers := by
    simpa using (Bool.or_eq_false_iff.mp free).2
  cases Option.some.inj ended
  refine ⟨coherent.logged, coherent.staged, coherent.flushing, coherent.collecting,
    coherent.everyone, fun notDraining => ?_, fun draining => ?_, coherent.returned⟩
  · obtain ⟨noRequest, noAnswer⟩ := coherent.silent notDraining
    show (state.control && !(!state.pass.madeProgress && state.control)) = false ∧
      (state.drained || (!state.pass.madeProgress && state.control)) = false
    rw [noRequest, noAnswer, Bool.and_false]
    exact ⟨rfl, rfl⟩
  · have fresh : ∀ worker : Fin workers, worker.val < 0 → (state.thread worker).queue = [] :=
      fun _ below => absurd below (Nat.not_lt_zero _)
    rcases coherent.answered draining with ⟨asking, unanswered, timely⟩ | ⟨gone, given, nothing⟩
    · cases made : state.pass.madeProgress with
      | true =>
        refine Or.inl ⟨?_, ?_, Or.inr (Or.inr fresh)⟩
        · show (state.control && !(!true && state.control)) = true
          rw [asking]
          rfl
        · show (state.drained || (!true && state.control)) = false
          rw [unanswered]
          rfl
      | false =>
        refine Or.inr ⟨?_, ?_, fun worker => ?_⟩
        · show (state.control && !(!false && state.control)) = false
          rw [asking]
          rfl
        · show (state.drained || (!false && state.control)) = true
          rw [asking, unanswered]
          rfl
        · rcases timely with progress | ⟨later, notPassed, _⟩ | passed
          · exact absurd (made.symm.trans progress) Bool.false_ne_true
          · exact absurd (le_of_eq_of_le here.symm notPassed) (Nat.not_le.mpr later.isLt)
          · exact passed worker (lt_of_lt_of_eq worker.isLt here.symm)
    · refine Or.inr ⟨?_, ?_, nothing⟩
      · show (state.control && !(!state.pass.madeProgress && state.control)) = false
        rw [gone, Bool.false_and]
      · show (state.drained || (!state.pass.madeProgress && state.control)) = true
        rw [given, Bool.true_or]

/-! ### Runs -/

theorem coherent_step (coherent : state.Coherent) {event : RuntimeEvent Input workers}
    (timely : event = .sendDrain → state.Timely)
    (stepped : state.step traits capacity event = some after) : after.Coherent := by
  cases event with
  | insert worker input => exact coherent_insert coherent stepped
  | beginFlush => exact coherent_beginFlush coherent stepped
  | sendFlush worker => exact coherent_sendFlush coherent stepped
  | receiveAck count => exact coherent_receiveAck coherent stepped
  | sendDrain => exact coherent_sendDrain coherent (timely rfl) stepped
  | receiveDrain => exact coherent_receiveDrain coherent stepped
  | beginClose => exact coherent_beginClose coherent stepped
  | sendEnd worker => exact coherent_sendEnd coherent stepped
  | receive worker =>
    obtain ⟨thread, received, rfl⟩ := Option.map_eq_some_iff.mp stepped
    exact coherent_receive coherent received
  | send worker =>
    obtain ⟨thread, sent, rfl⟩ := Option.map_eq_some_iff.mp stepped
    exact coherent_send coherent sent
  | settle worker => exact coherent_settle coherent stepped
  | poll worker => exact coherent_poll coherent stepped
  | endPass => exact coherent_endPass coherent stepped
  | setThreshold tau =>
    cases Option.some.inj stepped
    exact ⟨coherent.logged, coherent.staged, coherent.flushing, coherent.collecting,
      coherent.everyone, coherent.silent, coherent.answered, coherent.returned⟩

/-- A run whose drain requests are all sent in time. -/
inductive TimelyRun (traits : OctoTraits Input Payload Worker Delta Parent) (capacity : ℕ)
    (first : OctoRuntime Payload Worker Delta Parent workers) :
    OctoRuntime Payload Worker Delta Parent workers → Prop
  | refl : TimelyRun traits capacity first first
  | tail {before after : OctoRuntime Payload Worker Delta Parent workers}
      (event : RuntimeEvent Input workers) (ran : TimelyRun traits capacity first before)
      (timely : event = .sendDrain → before.Timely)
      (stepped : before.step traits capacity event = some after) :
      TimelyRun traits capacity first after

theorem TimelyRun.coherent {first : OctoRuntime Payload Worker Delta Parent workers}
    (ran : TimelyRun traits capacity first after) (coherent : first.Coherent) : after.Coherent := by
  induction ran with
  | refl => exact coherent
  | tail event _ timely stepped hypothesis =>
    exact coherent_step hypothesis timely stepped

def isSendDrain : RuntimeEvent Input workers → Bool
  | .sendDrain => true
  | _ => false

theorem TimelyRun.append {first before : OctoRuntime Payload Worker Delta Parent workers}
    (ran : TimelyRun traits capacity first before) (events : List (RuntimeEvent Input workers))
    (other : events.any isSendDrain = false)
    (later : run traits capacity events before = some after) :
    TimelyRun traits capacity first after := by
  induction events generalizing before with
  | nil =>
    cases Option.some.inj later
    exact ran
  | cons event rest hypothesis =>
    obtain ⟨next, stepped, laterRest⟩ := Option.bind_eq_some_iff.mp later
    obtain ⟨notDrain, otherRest⟩ := Bool.or_eq_false_iff.mp other
    refine hypothesis (ran.tail event (fun same => ?_) stepped) otherRest laterRest
    rw [same] at notDrain
    exact absurd notDrain.symm Bool.false_ne_true

/-- In a run whose drain requests are all sent in time, whenever `flush` has returned, everything
acknowledged to it has been applied. -/
theorem flush_barrier_of_timely (traits : OctoTraits Input Payload Worker Delta Parent)
    (capacity threshold : ℕ) (workerOf : Fin workers → Worker) (parent : Parent)
    {reached : OctoRuntime Payload Worker Delta Parent workers}
    (ran : TimelyRun traits capacity (start threshold workerOf parent) reached) :
    reached.Barrier :=
  (ran.coherent (coherent_start threshold workerOf parent)).barrier

def singleCell : OctoRuntime (List (BitVec 64)) WorkerSketch CellDelta CountMin 1 :=
  start 31 (fun _ => WorkerSketch.new 1 1) (CountMin.withDimensions 1 1)

/-- A flush whose request is sent before the aggregator polls the worker. -/
theorem flush_barrier_single_cell : ∃ reached,
    TimelyRun ((cmOcto plainXxHash).traits 1) 8 singleCell reached ∧
      reached.caller = .returned ∧ reached.Barrier := by
  have collected := (TimelyRun.refl : TimelyRun ((cmOcto plainXxHash).traits 1) 8 singleCell
    singleCell).append [.insert 0 (.u64 7), .receive 0, .settle 0, .beginFlush, .sendFlush 0,
      .receive 0, .send 0, .settle 0, .receiveAck 0] rfl rfl
  have asked := collected.tail .sendDrain
    (fun _ => Or.inr (Or.inl ⟨0, by decide, by decide⟩)) rfl
  have returned := asked.append [.poll 0, .endPass, .poll 0, .endPass, .receiveDrain] rfl rfl
  exact ⟨_, returned, rfl, flush_barrier_of_timely _ _ _ _ _ returned⟩

/-- The operations of a flush that returns too early: the pass of the aggregator leaves the queue
before the worker flushes into it, and answers the request at its end. -/
def earlyDrain : List (RuntimeEvent DataInput 1) :=
  [.insert 0 (.u64 7), .receive 0, .settle 0, .poll 0, .beginFlush, .sendFlush 0, .receive 0, .send 0,
    .settle 0, .receiveAck 0, .sendDrain, .endPass, .receiveDrain]

theorem flush_returns_early : ∃ reached,
    run ((cmOcto plainXxHash).traits 1) 8 earlyDrain singleCell = some reached ∧
      reached.caller = .returned ∧ (reached.thread 0).emitted = [⟨0, 0, 1⟩] ∧
      (reached.thread 0).queue = [⟨0, 0, 1⟩] ∧ ¬ reached.Barrier := by
  refine ⟨_, rfl, rfl, rfl, rfl, fun barrier => ?_⟩
  have applied := (barrier rfl 0).length_le
  exact absurd applied (by decide)

end OctoRuntime

end AsapSketchlib
