import SampLogCore.Lib.Transition
import Mathlib.Logic.Function.Basic
import Mathlib.Data.List.Infix

/-!
# The message queue of `LogManager`

`LogManager` owns one worker thread. Any thread hands it an action with `Queue` (push under
`_queueMtx`, then notify), `Process` runs the actions one by one with the mutex released, and the
destructor clears `_threadRunning` under the mutex, notifies and joins.

Each thread has a place in its code (`QueuePc`, `ProcessPc`, `DestructorPc`); a step moves one
thread by one operation on the mutex, the queue, the flag or the condition variable. The condition
variable has one waiter, the worker: `notify_one` marks it if it is waiting and is lost otherwise,
and a wait may also return spuriously.

The state carries the history the specifications speak of: the `Queue` calls of each thread, the
pushes, the executed actions, and what had been pushed when the flag was cleared.
-/

namespace SampLogCore.LogManager.Process

open SampLogCore.Lib.Transition

/-- A queued action: the closure that `producer` passes to `Queue` for the message `msg`. -/
structure Action (Producer Msg : Type*) where
  producer : Producer
  msg : Msg
  deriving DecidableEq

/-- Who holds `_queueMtx`. -/
inductive Holder (Producer : Type*)
  | worker
  | destructor
  | producer (p : Producer)

/-- Where a thread is in `LogManager::Queue`. -/
inductive QueuePc (Msg : Type*)
  /-- not in `Queue` -/
  | idle
  /-- at the `lock_guard` -/
  | lock (m : Msg)
  /-- at `_queue.push` -/
  | push (m : Msg)
  /-- at the end of the locked block -/
  | unlock
  /-- at `_queueNotifier.notify_one` -/
  | notify

/-- Where the worker is in `LogManager::Process`. -/
inductive ProcessPc (Action : Type*)
  /-- the constructor has not created the thread yet -/
  | unborn
  /-- at the `unique_lock` -/
  | start
  /-- at `_queueNotifier.wait(lk)`, still holding the mutex -/
  | wait
  /-- blocked in the wait, the mutex released; `notified` once a notification arrived -/
  | waiting (notified : Bool)
  /-- in the wait, awake and acquiring the mutex again -/
  | woken
  /-- at `while (!_queue.empty())` -/
  | testQueue
  /-- at `lk.unlock()`, with the popped action -/
  | unlock (a : Action)
  /-- at `action()` -/
  | run (a : Action)
  /-- at `lk.lock()` -/
  | lock
  /-- at `while (_threadRunning)`, the queue seen empty -/
  | testRunning
  /-- `Process` has returned -/
  | exited

/-- Where the destroying thread is in `LogManager::~LogManager`. -/
inductive DestructorPc
  /-- not called -/
  | idle
  /-- at the `lock_guard` -/
  | lock
  /-- at `_threadRunning = false` -/
  | clear
  /-- at the end of the locked block -/
  | unlock
  /-- at `_queueNotifier.notify_one` -/
  | notify
  /-- at `_thread->join()` -/
  | join
  /-- joined -/
  | joined

variable {Producer Msg : Type*}

/-- The shared data, the places of the threads, and the history. -/
structure State (Producer Msg : Type*) where
  /-- the holder of `_queueMtx` -/
  queueMtx : Option (Holder Producer)
  queue : List (Action Producer Msg)
  threadRunning : Bool
  worker : ProcessPc (Action Producer Msg)
  producers : Producer → QueuePc Msg
  destructor : DestructorPc
  /-- history: the worker has entered its first wait -/
  waited : Bool
  /-- history: the messages of the `Queue` calls of each thread, in call order -/
  called : Producer → List Msg
  /-- history: all pushes, in order -/
  pushed : List (Action Producer Msg)
  /-- history: all executed actions, in order -/
  executed : List (Action Producer Msg)
  /-- history: what had been pushed when `_threadRunning` was cleared -/
  cleared : Option (List (Action Producer Msg))

/-- `LogManager::LogManager` up to the creation of the thread. -/
def initial : State Producer Msg where
  queueMtx := none
  queue := []
  threadRunning := true
  worker := .unborn
  producers _ := .idle
  destructor := .idle
  waited := false
  called _ := []
  pushed := []
  executed := []
  cleared := none

/-- A choice of the scheduler. -/
inductive Event (Producer Msg : Type*)
  /-- the constructor creates the worker thread and returns -/
  | construct
  /-- the thread `p` calls `Queue` -/
  | call (p : Producer) (m : Msg)
  /-- the thread `p` takes its next step in `Queue` -/
  | queue (p : Producer)
  /-- the worker takes its next step in `Process` -/
  | process
  /-- the worker's wait returns without a notification -/
  | spurious
  /-- a thread calls the destructor -/
  | destroy
  /-- the destroying thread takes its next step -/
  | destructor

/-- `_queueNotifier.notify_one()`: the only waiter is the worker. -/
def State.notifyOne (s : State Producer Msg) : State Producer Msg :=
  match s.worker with
  | .waiting _ => { s with worker := .waiting true }
  | _ => s

/-- The next step of the worker in `LogManager::Process`. -/
def processStep (s : State Producer Msg) : Option (State Producer Msg) :=
  match s.worker with
  | .unborn => none
  | .start =>
    match s.queueMtx with
    | none => some { s with queueMtx := some .worker, worker := .wait }
    | some _ => none
  | .wait => some { s with queueMtx := none, worker := .waiting false, waited := true }
  | .waiting true => some { s with worker := .woken }
  | .waiting false => none
  | .woken =>
    match s.queueMtx with
    | none => some { s with queueMtx := some .worker, worker := .testQueue }
    | some _ => none
  | .testQueue =>
    match s.queue with
    | [] => some { s with worker := .testRunning }
    | a :: q => some { s with queue := q, worker := .unlock a }
  | .unlock a => some { s with queueMtx := none, worker := .run a }
  | .run a => some { s with executed := s.executed ++ [a], worker := .lock }
  | .lock =>
    match s.queueMtx with
    | none => some { s with queueMtx := some .worker, worker := .testQueue }
    | some _ => none
  | .testRunning =>
    if s.threadRunning then some { s with worker := .wait }
    else some { s with queueMtx := none, worker := .exited }
  | .exited => none

/-- The next step of the thread in `LogManager::~LogManager`. -/
def destructorStep (s : State Producer Msg) : Option (State Producer Msg) :=
  match s.destructor with
  | .idle => none
  | .lock =>
    match s.queueMtx with
    | none => some { s with queueMtx := some .destructor, destructor := .clear }
    | some _ => none
  | .clear =>
    some { s with threadRunning := false, cleared := some s.pushed, destructor := .unlock }
  | .unlock => some { s with queueMtx := none, destructor := .notify }
  | .notify => some { s.notifyOne with destructor := .join }
  | .join =>
    match s.worker with
    | .exited => some { s with destructor := .joined }
    | _ => none
  | .joined => none

section Steps

variable [DecidableEq Producer]

/-- The next step of the thread `p` in `LogManager::Queue`. -/
def queueStep (s : State Producer Msg) (p : Producer) : Option (State Producer Msg) :=
  match s.producers p with
  | .idle => none
  | .lock m =>
    match s.queueMtx with
    | none => some { s with queueMtx := some (.producer p),
                            producers := Function.update s.producers p (.push m) }
    | some _ => none
  | .push m =>
    some { s with queue := s.queue ++ [⟨p, m⟩], pushed := s.pushed ++ [⟨p, m⟩],
                  producers := Function.update s.producers p .unlock }
  | .unlock =>
    some { s with queueMtx := none, producers := Function.update s.producers p .notify }
  | .notify => some { s.notifyOne with producers := Function.update s.producers p .idle }

/-- **One step of the system.** The instance is published when the constructor returns, so `Queue`
and the destructor are called only once the worker exists. -/
def step (s : State Producer Msg) : Event Producer Msg → Option (State Producer Msg)
  | .construct =>
    match s.worker with
    | .unborn => some { s with worker := .start }
    | _ => none
  | .call p m =>
    match s.worker, s.producers p with
    | .unborn, _ => none
    | _, .idle => some { s with producers := Function.update s.producers p (.lock m),
                                called := Function.update s.called p (s.called p ++ [m]) }
    | _, _ => none
  | .queue p => queueStep s p
  | .process => processStep s
  | .spurious =>
    match s.worker with
    | .waiting _ => some { s with worker := .woken }
    | _ => none
  | .destroy =>
    match s.worker, s.destructor with
    | .unborn, _ => none
    | _, .idle => some { s with destructor := .lock }
    | _, _ => none
  | .destructor => destructorStep s

/-- **The transition system of `LogManager`.** -/
def system (Producer Msg : Type*) [DecidableEq Producer] :
    System (State Producer Msg) (Event Producer Msg) :=
  ofStep (· = initial) step

end Steps

/-! ### What the places say about the mutex and the actions -/

/-- The thread holds the mutex at this place of `Queue`. -/
def QueuePc.Holds : QueuePc Msg → Prop
  | .push _ | .unlock => True
  | _ => False

/-- The thread has pushed and its notification is still to come. -/
def QueuePc.OwesNotify : QueuePc Msg → Prop
  | .unlock | .notify => True
  | _ => False

/-- The message of a `Queue` call that has not been pushed yet. -/
def QueuePc.inHand : QueuePc Msg → List Msg
  | .lock m | .push m => [m]
  | _ => []

/-- The worker holds the mutex at this place of `Process`. -/
def ProcessPc.Holds {Action : Type*} : ProcessPc Action → Prop
  | .wait | .testQueue | .unlock _ | .testRunning => True
  | _ => False

/-- The action the worker has popped and not executed yet. -/
def ProcessPc.inHand {Action : Type*} : ProcessPc Action → List Action
  | .unlock a | .run a => [a]
  | _ => []

/-- The destroying thread holds the mutex. -/
def DestructorPc.Holds : DestructorPc → Prop
  | .clear | .unlock => True
  | _ => False

/-- The destroying thread has not cleared the flag yet. -/
def DestructorPc.Early : DestructorPc → Prop
  | .idle | .lock | .clear => True
  | _ => False

/-- The destroying thread has cleared the flag and its notification is still to come. -/
def DestructorPc.OwesNotify : DestructorPc → Prop
  | .unlock | .notify => True
  | _ => False

/-- The messages of the thread `p` among the actions `l`. -/
def messagesOf [DecidableEq Producer] (p : Producer) (l : List (Action Producer Msg)) : List Msg :=
  (l.filter fun a => a.producer = p).map Action.msg

/-! ### What a notification changes -/

section Notify

variable (s : State Producer Msg)

@[simp] theorem notifyOne_queueMtx : s.notifyOne.queueMtx = s.queueMtx := by
  unfold State.notifyOne; split <;> rfl
@[simp] theorem notifyOne_queue : s.notifyOne.queue = s.queue := by
  unfold State.notifyOne; split <;> rfl
@[simp] theorem notifyOne_threadRunning : s.notifyOne.threadRunning = s.threadRunning := by
  unfold State.notifyOne; split <;> rfl
@[simp] theorem notifyOne_producers : s.notifyOne.producers = s.producers := by
  unfold State.notifyOne; split <;> rfl
@[simp] theorem notifyOne_destructor : s.notifyOne.destructor = s.destructor := by
  unfold State.notifyOne; split <;> rfl
@[simp] theorem notifyOne_waited : s.notifyOne.waited = s.waited := by
  unfold State.notifyOne; split <;> rfl
@[simp] theorem notifyOne_called : s.notifyOne.called = s.called := by
  unfold State.notifyOne; split <;> rfl
@[simp] theorem notifyOne_pushed : s.notifyOne.pushed = s.pushed := by
  unfold State.notifyOne; split <;> rfl
@[simp] theorem notifyOne_executed : s.notifyOne.executed = s.executed := by
  unfold State.notifyOne; split <;> rfl
@[simp] theorem notifyOne_cleared : s.notifyOne.cleared = s.cleared := by
  unfold State.notifyOne; split <;> rfl

/-- The worker after a notification: marked if it was waiting, else as before. -/
theorem notifyOne_worker :
    (∃ b, s.worker = .waiting b ∧ s.notifyOne.worker = .waiting true) ∨
      ((∀ b, s.worker ≠ .waiting b) ∧ s.notifyOne.worker = s.worker) := by
  unfold State.notifyOne
  split
  · next b hb => exact Or.inl ⟨b, hb, rfl⟩
  · next hb => exact Or.inr ⟨hb, rfl⟩

end Notify

end SampLogCore.LogManager.Process
