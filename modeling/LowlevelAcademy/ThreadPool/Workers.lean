import LowlevelAcademy.Foundations.Queue
import LowlevelAcademy.ThreadPool.Pool

/-! The threads around the pool as a state machine. Each critical section is one step; so are
running a task, a spurious wake-up and joining a thread. A schedule chooses who is next.
-/

namespace LowlevelAcademy.ThreadPool

open LowlevelAcademy.Foundations

/-- A worker thread. -/
abbrev Worker := Fin threads

/-- Where a worker stands. A worker that was woken contends for the lock like one that is at
the top of its loop.
-/
inductive WorkerState where
  | contending
  | asleep
  | running (task : Task)
  | exited
  deriving DecidableEq

/-- Where `threadpool_destroy` stands: it was not called, waits for the worker with the given
number, or has joined all of them and destroyed the lock.
-/
inductive Destroyer where
  | idle
  | joining (next : Nat)
  | done
  deriving DecidableEq

/-- The pool, its workers and the call of `threadpool_destroy`. -/
structure System where
  pool : Threadpool
  workers : Worker → WorkerState
  destroyer : Destroyer

/-- After `threadpool_init`; no worker has entered its loop yet. -/
def System.init (memory : Fin queueSize → Task) : System where
  pool := threadpoolInit memory
  workers := fun _ => .contending
  destroyer := .idle

/-- What the scheduler lets happen next. A call of `threadpool_add_task` comes with the
sleepers that its signal wakes.
-/
inductive Choice where
  | add (function arg : Pointer) (woken : Worker → Bool)
  | lock (worker : Worker)
  | finish (worker : Worker)
  | spurious (worker : Worker)
  | destroy
  | join

/-- What a step does, as the threads see it. -/
inductive Event where
  | accepted (task : Task)
  | rejected (task : Task)
  | took (worker : Worker) (task : Task)
  | slept (worker : Worker)
  | exited (worker : Worker)
  | executed (worker : Worker) (task : Task)
  | woke (worker : Worker)
  | stopped
  | joined (worker : Worker)
  | destroyed
  deriving DecidableEq

/-- The workers after the chosen sleepers were woken. -/
def wake (woken : Worker → Bool) (workers : Worker → WorkerState) : Worker → WorkerState :=
  fun worker =>
    if workers worker = .asleep ∧ woken worker then .contending else workers worker

/-- A signal wakes at least one sleeper, if there is any. -/
def SignalWakes (workers : Worker → WorkerState) (woken : Worker → Bool) : Prop :=
  (∃ worker, workers worker = .asleep) → ∃ worker, workers worker = .asleep ∧ woken worker

instance (workers : Worker → WorkerState) (woken : Worker → Bool)
    : Decidable (SignalWakes workers woken) :=
  inferInstanceAs (Decidable (_ → _))

/-- The critical section of a worker that got the lock, and where it leaves the worker. -/
def lockStep (system : System) (worker : Worker) : Option (System × Event) :=
  match threadFunction system.pool with
  | none => none
  | some (pool, .wait) =>
      some (⟨pool, Function.update system.workers worker .asleep, system.destroyer⟩,
        .slept worker)
  | some (pool, .exit) =>
      some (⟨pool, Function.update system.workers worker .exited, system.destroyer⟩,
        .exited worker)
  | some (pool, .run task) =>
      some (⟨pool, Function.update system.workers worker (.running task), system.destroyer⟩,
        .took worker task)

/-- A call of `threadpool_add_task`. -/
def addStep (system : System) (function arg : Pointer) (woken : Worker → Bool)
    : Option (System × Event) :=
  match threadpoolAddTask system.pool function arg with
  | none => none
  | some (pool, true) =>
      some (⟨pool, wake woken system.workers, system.destroyer⟩, .accepted ⟨function, arg⟩)
  | some (pool, false) =>
      some (⟨pool, system.workers, system.destroyer⟩, .rejected ⟨function, arg⟩)

/-- The loop of `threadpool_destroy` over the threads, and its end. -/
def joinStep (system : System) (next : Nat) : Option (System × Event) :=
  if inside : next < threads then
    if system.workers ⟨next, inside⟩ = .exited then
      some (⟨system.pool, system.workers, .joining (next + 1)⟩, .joined ⟨next, inside⟩)
    else none
  else some (⟨system.pool, system.workers, .done⟩, .destroyed)

/-- One step of the system, where the choice is possible. The lock must not be destroyed yet
when a task is added, and `threadpool_destroy` is called once.
-/
def systemStep (system : System) : Choice → Option (System × Event)
  | .add function arg woken =>
      if system.destroyer ≠ .done ∧ SignalWakes system.workers woken then
        addStep system function arg woken
      else none
  | .lock worker =>
      if system.workers worker = .contending then lockStep system worker else none
  | .finish worker =>
      match system.workers worker with
      | .running task =>
          some (⟨system.pool, Function.update system.workers worker .contending,
            system.destroyer⟩, .executed worker task)
      | _ => none
  | .spurious worker =>
      if system.workers worker = .asleep then
        some (⟨system.pool, Function.update system.workers worker .contending,
          system.destroyer⟩, .woke worker)
      else none
  | .destroy =>
      if system.destroyer = .idle then
        some (⟨threadpoolDestroy system.pool, wake (fun _ => true) system.workers,
          .joining 0⟩, .stopped)
      else none
  | .join =>
      match system.destroyer with
      | .joining next => joinStep system next
      | _ => none

/-- A step of the system under some choice of the scheduler. -/
def Step (system : System) (event : Event) (next : System) : Prop :=
  ∃ choice, systemStep system choice = some (next, event)

/-- What a schedule leads to, and what happens on the way. -/
def scheduled (system : System) : List Choice → Option (System × List Event)
  | [] => some (system, [])
  | choice :: later =>
      match systemStep system choice with
      | none => none
      | some (next, event) =>
          match scheduled next later with
          | none => none
          | some (last, events) => some (last, event :: events)

/-- A schedule whose choices are possible is a run, by induction over its choices. -/
theorem run_of_scheduled {system last : System} {choices : List Choice} {events : List Event}
    (possible : scheduled system choices = some (last, events))
    : Run Step system events last := by
  induction choices generalizing system events with
  | nil =>
      cases possible
      exact .nil
  | cons choice later ih =>
      simp only [scheduled] at possible
      split at possible
      · cases possible
      next next event step =>
      split at possible
      · cases possible
      next more rest =>
      cases possible
      exact (ih rest).cons ⟨choice, step⟩

end LowlevelAcademy.ThreadPool
