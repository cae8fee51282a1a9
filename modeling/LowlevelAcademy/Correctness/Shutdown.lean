import LowlevelAcademy.Correctness.TaskQueue
import LowlevelAcademy.Foundations.Budgets
import LowlevelAcademy.ThreadPool.Threads

/-! Shutting the pool down: what happened to every task that was ever accepted once
`threadpool_destroy` has joined all workers.
-/

namespace LowlevelAcademy.Correctness

open LowlevelAcademy.Foundations
open LowlevelAcademy.ThreadPool

/-- The tasks that workers executed, in order. -/
def executedTasks (history : List Event) : List Task :=
  history.filterMap fun
    | .executed _ task => some task
    | _ => none

/-- The task that a worker is running, if any. -/
def heldTask : WorkerState → Multiset Task
  | .running task => {task}
  | _ => 0

/-- The tasks that workers are running. -/
def heldTasks (workers : Worker → WorkerState) : Multiset Task :=
  ∑ worker, heldTask (workers worker)

/-- A worker that moves exchanges what it held for what it holds now. -/
theorem heldTasks_update (workers : Worker → WorkerState) (worker : Worker)
    (state : WorkerState)
    : heldTasks (Function.update workers worker state) + heldTask (workers worker)
      = heldTasks workers + heldTask state :=
  sum_update heldTask workers worker state

/-- Waking workers changes nothing about what they hold. -/
theorem heldTasks_wake (woken : Worker → Bool) (workers : Worker → WorkerState)
    : heldTasks (wake woken workers) = heldTasks workers := by
  refine Finset.sum_congr rfl fun worker _ => ?_
  rw [wake]
  split_ifs with sleeper
  · simp [heldTask, sleeper.1]
  · rfl

variable {system next : System} {event : Event} {history : List Event}

/-- Each task that was taken was executed or is held by a worker, with its multiplicity. -/
def Conserved (history : List Event) (system : System) : Prop :=
  (takenTasks history : Multiset Task) = executedTasks history + heldTasks system.workers

/-- The tasks of a history with one more event. -/
private theorem tasks_snoc (history : List Event) (event : Event)
    : takenTasks (history ++ [event]) = takenTasks history ++ takenTasks [event]
      ∧ executedTasks (history ++ [event]) = executedTasks history ++ executedTasks [event]
      ∧ acceptedTasks (history ++ [event])
        = acceptedTasks history ++ acceptedTasks [event] :=
  ⟨List.filterMap_append, List.filterMap_append, List.filterMap_append⟩

/-- A step accounts for the tasks of its worker: what it took or held before, it executed or
holds now.
-/
theorem accounts_of_step (step : ThreadStep system next event)
    : (takenTasks [event] : Multiset Task) + heldTasks system.workers
      = executedTasks [event] + heldTasks next.workers := by
  cases step with
  | accepted => simp [takenTasks, executedTasks, heldTasks_wake]
  | stopped => simp [takenTasks, executedTasks, heldTasks_wake]
  | rejected | joined | destroyed => simp [takenTasks, executedTasks]
  | @slept worker contends | @exited worker contends =>
      have moved := heldTasks_update system.workers worker
      simp only [contends, heldTask, add_zero] at moved
      simp [takenTasks, executedTasks, moved]
  | @woke worker sleeps =>
      have moved := heldTasks_update system.workers worker .contending
      simp only [sleeps, heldTask, add_zero] at moved
      simp [takenTasks, executedTasks, moved]
  | @took pool worker task contends =>
      have moved := heldTasks_update system.workers worker (.running task)
      simp only [contends, heldTask, add_zero] at moved
      simp [takenTasks, executedTasks, moved, add_comm]
  | @executed worker task holds =>
      have moved := heldTasks_update system.workers worker .contending
      simp only [holds, heldTask, add_zero] at moved
      simp [takenTasks, executedTasks, ← moved, add_comm]

/-- Every step leaves it so. -/
theorem Conserved.step (conserved : Conserved history system)
    (step : ThreadStep system next event)
    : Conserved (history ++ [event]) next := by
  obtain ⟨taken, executed, -⟩ := tasks_snoc history event
  have accounts := accounts_of_step step
  rw [Conserved] at conserved ⊢
  rw [taken, executed, ← Multiset.coe_add, ← Multiset.coe_add, conserved, add_assoc,
    add_comm (heldTasks _), accounts, add_assoc]

/-- Once the pool is stopped, the history has a stop request behind which nothing is taken. -/
def TakesUntilStop (history : List Event) (system : System) : Prop :=
  system.pool.stop = true
  → ∃ before after, history = before ++ .stopped :: after ∧ takenTasks after = []

/-- Every step leaves it so: a worker takes a task only from a running pool. -/
theorem TakesUntilStop.step (untilStop : TakesUntilStop history system)
    (step : ThreadStep system next event)
    : TakesUntilStop (history ++ [event]) next := by
  -- an event that takes nothing goes behind the stop request, if there was one
  have behind (kept : next.pool.stop = system.pool.stop) (none : takenTasks [event] = [])
      : TakesUntilStop (history ++ [event]) next := by
    intro stopped
    obtain ⟨before, after, split, untaken⟩ := untilStop (kept ▸ stopped)
    refine ⟨before, after ++ [event], by simp [split], ?_⟩
    rw [(tasks_snoc after event).1, untaken, none, List.nil_append]
  cases step with
  | accepted _ stop => exact behind stop rfl
  | rejected | slept | exited | executed | woke | joined | destroyed => exact behind rfl rfl
  | took _ _ _ stop =>
      intro stopped
      rw [stop] at stopped
      cases stopped
  | stopped => exact fun _ => ⟨history, [], rfl, rfl⟩

/-- Where nothing is taken behind the stop request, the tasks of a history are these. -/
private theorem tasks_behind_stop (before : List Event) {after : List Event}
    (untaken : takenTasks after = [])
    : takenTasks (before ++ .stopped :: after) = takenTasks before
      ∧ acceptedTasks (before ++ .stopped :: after)
        = acceptedTasks before ++ acceptedTasks after := by
  constructor
  · rw [takenTasks, List.filterMap_append, ← takenTasks]
    simpa [takenTasks] using untaken
  · simp [acceptedTasks]

/-- When `threadpool_destroy` is done, all workers have exited and every task that was taken has
been executed exactly once. Nothing was taken after the stop request: the tasks that waited
then are still in the queue, followed by those accepted afterwards.
-/
theorem shutdown_keeps_waiting {memory : Fin queueSize → Task}
    (run : Run Step (System.init memory) history system) (done : system.destroyer = .done)
    : ∃ before after waiting,
        history = before ++ .stopped :: after
        ∧ (∀ worker, system.workers worker = .exited)
        ∧ (executedTasks history).Perm (takenTasks history)
        ∧ takenTasks after = []
        ∧ acceptedTasks before = takenTasks before ++ waiting
        ∧ QueueHolds system.pool (waiting ++ acceptedTasks after) := by
  have closing := closing_run run
  have exited := closing.done done
  have kept := run.invariant
    (motive := fun history system => Conserved history system ∧ TakesUntilStop history system)
    ⟨by simp [Conserved, takenTasks, executedTasks, heldTasks, heldTask, System.init],
      fun stopped => by cases stopped⟩
    (fun _ _ _ _ kept step =>
      ⟨kept.1.step (threadStep_of_step step), kept.2.step (threadStep_of_step step)⟩)
  obtain ⟨conserved, untilStop⟩ := kept
  have stopped : system.pool.stop = true := closing.called.mpr (by simp [done])
  obtain ⟨before, after, rfl, untaken⟩ := untilStop stopped
  obtain ⟨_, first, -⟩ := run.split
  obtain ⟨earlier, -, -, waited⟩ := waiting_of_run first
  obtain ⟨ring, keeps, -, left⟩ := waiting_of_run run
  -- the ring holds what waited at the stop and what was accepted since
  have contents : ring.contents = earlier.contents ++ acceptedTasks after := by
    obtain ⟨taken, accepted⟩ := tasks_behind_stop before untaken
    rw [taken, accepted, waited, List.append_assoc] at left
    exact (List.append_cancel_left left).symm
  refine ⟨before, after, earlier.contents, rfl, exited, ?_, untaken, waited, ?_⟩
  · have none : heldTasks system.workers = 0 := by
      simp [heldTasks, exited, heldTask]
    rw [Conserved, none, add_zero] at conserved
    exact Multiset.coe_eq_coe.mp conserved.symm
  · rw [← contents]
    exact queueHolds_of_keeps keeps

/-- Every worker gets the lock once. -/
def everyWorker : List Choice := (List.finRange threads).map .lock

/-- Every worker is joined, and the lock destroyed. -/
def joinAll : List Choice := List.replicate (threads + 1) .join

/-- A task is added, then the pool is shut down before any worker gets the lock: the task is
neither taken nor executed.
-/
theorem shutdown_loses_task
    : ∃ history system,
        Run Step (System.init fun _ => ⟨0, 0⟩) history system
        ∧ system.destroyer = .done
        ∧ acceptedTasks history = [⟨1, 2⟩]
        ∧ executedTasks history = []
        ∧ system.pool.queued = 1 := by
  obtain ⟨system, history, possible, facts⟩ : ∃ system history,
      scheduled (System.init fun _ => ⟨0, 0⟩)
          (.add 1 2 (fun _ => false) :: .destroy :: everyWorker ++ joinAll)
        = some (system, history)
      ∧ system.destroyer = .done
      ∧ acceptedTasks history = [⟨1, 2⟩]
      ∧ executedTasks history = []
      ∧ system.pool.queued = 1 :=
    ⟨_, _, rfl, rfl, rfl, rfl, rfl⟩
  exact ⟨history, system, run_of_scheduled possible, facts⟩

/-- Two tasks are added, and the worker executes the first one; then the pool is shut down while
the second one waits, and a third task is added behind the stop request.
-/
def stopWhileWaiting (worker : Fin threads) : List Choice :=
  .add 1 2 (fun _ => false) :: .add 3 4 (fun _ => false) :: .lock worker :: .finish worker
    :: .destroy :: .add 5 6 (fun _ => false) :: everyWorker ++ joinAll

/-- The first task was executed; the second and the third are left in the queue. -/
theorem shutdown_keeps_waiting_two
    : ∃ history system,
        Run Step (System.init fun _ => ⟨0, 0⟩) history system
        ∧ system.destroyer = .done
        ∧ executedTasks history = [⟨1, 2⟩]
        ∧ (executedTasks history).Perm (takenTasks history)
        ∧ QueueHolds system.pool [⟨3, 4⟩, ⟨5, 6⟩] := by
  obtain ⟨system, history, possible, done, accepted, taken, executed⟩ : ∃ system history,
      scheduled (System.init fun _ => ⟨0, 0⟩) (stopWhileWaiting 0) = some (system, history)
      ∧ system.destroyer = .done
      ∧ acceptedTasks history = [⟨1, 2⟩, ⟨3, 4⟩, ⟨5, 6⟩]
      ∧ takenTasks history = [⟨1, 2⟩]
      ∧ executedTasks history = [⟨1, 2⟩] :=
    ⟨_, _, rfl, rfl, rfl, rfl, rfl⟩
  have run := run_of_scheduled possible
  obtain ⟨before, after, waiting, rfl, -, executedOnce, untaken, waited, holds⟩ :=
    shutdown_keeps_waiting run done
  refine ⟨_, system, run, done, executed, executedOnce, ?_⟩
  have contents : waiting ++ acceptedTasks after = [⟨3, 4⟩, ⟨5, 6⟩] := by
    obtain ⟨takenBefore, acceptedSplit⟩ := tasks_behind_stop before untaken
    rw [acceptedSplit, waited, ← takenBefore, taken, List.append_assoc] at accepted
    exact List.append_cancel_left accepted
  exact contents ▸ holds

end LowlevelAcademy.Correctness
