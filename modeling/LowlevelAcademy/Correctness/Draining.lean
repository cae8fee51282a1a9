import LowlevelAcademy.Correctness.Shutdown
import LowlevelAcademy.Correctness.WakeUps
import LowlevelAcademy.ThreadPool.Progress

/-! The pool gets its work done: left alone it executes every task that it accepted, and
`threadpool_destroy` returns, whatever order the threads take the lock in.
-/

namespace LowlevelAcademy.Correctness

open LowlevelAcademy.Foundations
open LowlevelAcademy.ThreadPool

variable {memory : Fin queueSize → Task} {system next later : System} {history events : List Event}

/-- Work alone leaves a pool that was not shut down so. -/
theorem idle_of_work {event : Event} (idle : system.destroyer = .idle)
    (work : WorkStep system event next)
    : next.destroyer = .idle := by
  obtain ⟨step, works⟩ := work
  cases threadStep_of_step step with
  | slept | exited | took | executed => exact idle
  | joined _ joining | destroyed joining => cases idle.symm.trans joining
  | accepted | rejected | woke | stopped => cases works

/-- Every step of work takes one of the steps that are left. -/
theorem left_of_work {event : Event} (steady : system.Steady) (work : WorkStep system event next)
    : next.left + 1 ≤ system.left := by
  obtain ⟨step, works⟩ := work
  have fewer := left_of_step steady step
  have nothing : event.adds = 0 := by
    cases event <;> first | rfl | cases works
  rw [works, nothing, ite_self] at fewer
  exact fewer

/-- Every worker has at most two steps left. -/
theorem left_le (workers : Worker → WorkerState)
    : ∑ worker, (workers worker).left ≤ 16 := by
  have each (worker : Worker) : (workers worker).left ≤ 2 := by
    cases workers worker <;> simp
  calc ∑ worker, (workers worker).left
      ≤ ∑ _worker : Worker, 2 := Finset.sum_le_sum fun worker _ => each worker
    _ = 16 := by simp [threads]

/-- Along every run each taken task was executed or is held by a worker. -/
theorem conserved_run (run : Run Step (System.init memory) history system)
    : Conserved history system := by
  refine run.invariant (motive := Conserved) ?_ ?_
  · simp [Conserved, takenTasks, executedTasks, heldTasks, heldTask, System.init]
  · intro history system event next conserved step
    exact conserved.step (threadStep_of_step step)

/-- Once nobody holds a task and none waits, all accepted tasks have been executed. -/
theorem executed_of_rest (run : Run Step (System.init memory) history system)
    (sleep : AllAsleep system) (empty : system.pool.queued = 0)
    : (executedTasks history).Perm (acceptedTasks history) := by
  obtain ⟨ring, keeps, -, order⟩ := waiting_of_run run
  have conserved := conserved_run run
  have nobody : heldTasks system.workers = 0 := by
    simp [heldTasks, sleep _, heldTask]
  have none : ring.contents = [] := by
    rw [keeps.queued] at empty
    refine List.length_eq_zero_iff.mp ?_
    rw [Ring.contents_length]
    exact_mod_cast empty
  rw [Conserved, nobody, add_zero] at conserved
  rw [order, none, List.append_nil]
  exact (Multiset.coe_eq_coe.mp conserved).symm

/-- A run of work is a run. -/
theorem run_of_work (work : Run WorkStep system events later) : Run Step system events later :=
  work.mono fun _ _ _ step => step.1

/-- Work accepts no tasks, and leaves a pool that was not shut down so. -/
theorem work_run (idle : system.destroyer = .idle) (work : Run WorkStep system events later)
    : later.destroyer = .idle ∧ acceptedTasks events = [] := by
  refine work.invariant
    (motive := fun events later => later.destroyer = .idle ∧ acceptedTasks events = [])
    ⟨idle, rfl⟩ ?_
  rintro events state event next ⟨stays, nothing⟩ step
  refine ⟨idle_of_work stays step, ?_⟩
  rw [acceptedTasks, List.filterMap_append, ← acceptedTasks, nothing]
  cases event <;> first | rfl | cases step.2

/-- Working on, the pool takes at most the steps that are left, and it can work until it rests.
By the number of steps that are left.
-/
theorem rests_of_work (steady : system.Steady)
    : (∀ events later,
        Run WorkStep system events later → later.left + events.length ≤ system.left)
      ∧ ∃ events later, Run WorkStep system events later ∧ ¬ later.Works := by
  constructor
  · intro events later work
    have paid := work.budget System.Steady System.left (fun _ => 1) (fun _ => 0)
      (fun _ _ _ steady step => steady.step step.1)
      (fun _ _ _ steady step => left_of_work steady step) steady
    simpa using paid
  · obtain ⟨events, later, work, -, rests⟩ :=
      @Run.reach _ _ WorkStep system [] (fun _ state => state.Steady) (fun state => ¬ state.Works)
        System.left
        (fun events state steady works => by
          obtain ⟨event, next, step⟩ := not_not.mp works
          exact ⟨event, next, step, steady.step step.1, left_of_work steady step⟩)
        steady
    exact ⟨events, later, work, rests⟩

-----------------------------------------------------------------------------------------
-- The pool left alone
-----------------------------------------------------------------------------------------

/-- Left alone at any point before `threadpool_destroy`, the pool does its work: in whatever
order its threads go on, they take at most two steps for each waiting task and for each worker;
when none can go on, all workers sleep, no task waits, and the tasks that were executed are
those that were accepted, each exactly once. It can always be brought there. Spurious wake-ups
are left out of these steps: a worker that they wake takes a further step to sleep again.
-/
theorem pool_drains (run : Run Step (System.init memory) history system)
    (idle : system.destroyer = .idle)
    : (∀ events later,
        Run WorkStep system events later
        → (events.length : Int) ≤ 2 * system.pool.queued + 16
          ∧ (¬ later.Works
            → AllAsleep later
              ∧ later.pool.queued = 0
              ∧ (executedTasks (history ++ events)).Perm (acceptedTasks history)))
      ∧ ∃ events later, Run WorkStep system events later ∧ ¬ later.Works := by
  have steady := steady_run run
  obtain ⟨bounded, reaches⟩ := rests_of_work steady
  refine ⟨fun events later work => ⟨?_, fun rest => ?_⟩, reaches⟩
  · obtain ⟨ring, keeps⟩ := steady.keeps
    have counted := keeps.queued
    have running : system.pool.stop = false := by
      by_contra stopped
      exact steady.closing.called.mp (by simpa using stopped) idle
    have few := left_le system.workers
    have total := bounded events later work
    have left : system.left
        = 2 * system.pool.queued.toNat + ∑ worker, (system.workers worker).left := by
      simp [System.left, running, idle, Destroyer.left]
    rw [left] at total
    omega
  · obtain ⟨stays, nothing⟩ := work_run idle work
    have whole := run.append (run_of_work work)
    obtain ⟨sleep, empty⟩ := (steady_run whole).rests stays rest
    have executed := executed_of_rest whole sleep empty
    have accepted : acceptedTasks (history ++ events) = acceptedTasks history := by
      rw [acceptedTasks, List.filterMap_append, ← acceptedTasks, ← acceptedTasks, nothing,
        List.append_nil]
    rw [accepted] at executed
    exact ⟨sleep, empty, executed⟩

/-- A task that was added to a new pool gets executed. -/
theorem pool_drains_one
    : ∃ history system,
        Run Step (System.init fun _ => ⟨0, 0⟩) history system
        ∧ executedTasks history = [⟨1, 2⟩] := by
  obtain ⟨system, history, possible, idle, accepted⟩ : ∃ system history,
      scheduled (System.init fun _ => ⟨0, 0⟩) [.add 1 2 fun _ => false] = some (system, history)
      ∧ system.destroyer = .idle
      ∧ acceptedTasks history = [⟨1, 2⟩] :=
    ⟨_, _, rfl, rfl, rfl⟩
  have run := run_of_scheduled possible
  obtain ⟨drains, events, later, work, rest⟩ := pool_drains run idle
  obtain ⟨-, -, executed⟩ := (drains events later work).2 rest
  rw [accepted] at executed
  exact ⟨_, later, run.append (run_of_work work), List.perm_singleton.mp executed⟩

-----------------------------------------------------------------------------------------
-- The pool shut down
-----------------------------------------------------------------------------------------

/-- Once `threadpool_destroy` was called everything but further calls of `threadpool_add_task`
is work, and takes one of the steps that are left.
-/
theorem left_of_called {event : Event} (steady : system.Steady)
    (called : system.destroyer ≠ .idle) (step : Step system event next)
    : next.destroyer ≠ .idle
      ∧ next.left + event.works.toNat ≤ system.left
      ∧ event.works ≠ event.isAdd := by
  have stopped := steady.closing.called.mpr called
  have fewer := left_of_step steady step
  rw [if_pos stopped, Nat.add_zero] at fewer
  refine ⟨?_, fewer, ?_⟩
  · cases threadStep_of_step step with
    | accepted | rejected | slept | exited | took | executed | woke => exact called
    | stopped | joined | destroyed => simp
  · cases threadStep_of_step step with
    | woke sleeps => exact absurd sleeps (steady.awake.everyone stopped _)
    | stopped idle => exact absurd idle called
    | accepted | rejected | slept | exited | took | executed | joined | destroyed =>
        simp [Event.works, Event.isAdd]

/-- So it does along every run from there. -/
theorem called_run (steady : system.Steady) (called : system.destroyer ≠ .idle)
    (run : Run Step system events later)
    : later.destroyer ≠ .idle
      ∧ later.left + events.countP (·.works) ≤ system.left
      ∧ ∀ event ∈ events, event.works ≠ event.isAdd := by
  suffices kept : later.Steady ∧ later.destroyer ≠ .idle
      ∧ later.left + events.countP (·.works) ≤ system.left
      ∧ ∀ event ∈ events, event.works ≠ event.isAdd from kept.2
  refine run.invariant
    (motive := fun events later =>
      later.Steady ∧ later.destroyer ≠ .idle
      ∧ later.left + events.countP (·.works) ≤ system.left
      ∧ ∀ event ∈ events, event.works ≠ event.isAdd)
    ⟨steady, called, le_refl _, by simp⟩ ?_
  rintro events state event next ⟨steady, called, paid, others⟩ step
  obtain ⟨stays, fewer, kind⟩ := left_of_called steady called step
  refine ⟨steady.step step, stays, ?_, fun other member => ?_⟩
  · rw [List.countP_append, List.countP_singleton]
    cases works : event.works <;> simp [works] at fewer ⊢ <;> omega
  · rcases List.mem_append.mp member with earlier | last
    · exact others other earlier
    · rwa [List.mem_singleton.mp last]

/-- From any point behind the call of `threadpool_destroy` it returns: until then some thread can
go on, all together they go on at most 25 times, in whatever order and however many tasks are
still added meanwhile, and nothing else happens.
-/
theorem destroy_returns (run : Run Step (System.init memory) history system)
    (called : system.destroyer ≠ .idle)
    : (system.destroyer ≠ .done → system.Works)
      ∧ (∀ events later,
          Run Step system events later
          → events.countP (·.works) ≤ 25 ∧ ∀ event ∈ events, event.works ≠ event.isAdd)
      ∧ ∃ events later, Run WorkStep system events later ∧ later.destroyer = .done := by
  have steady := steady_run run
  refine ⟨steady.works called, fun events later more => ?_, ?_⟩
  · obtain ⟨-, paid, kinds⟩ := called_run steady called more
    refine ⟨?_, kinds⟩
    have few := left_le system.workers
    have stopped := steady.closing.called.mpr called
    have joins : system.destroyer.left ≤ 9 := by
      cases system.destroyer with
      | joining number => exact Nat.succ_le_succ (Nat.sub_le _ _)
      | idle | done => exact Nat.zero_le _
    simp only [System.left, stopped, if_true] at paid
    omega
  · obtain ⟨events, later, work, rests⟩ := (rests_of_work steady).2
    refine ⟨events, later, work, ?_⟩
    have behind := (called_run steady called (run_of_work work)).1
    have afterwards := steady_run (run.append (run_of_work work))
    by_contra unfinished
    exact rests (afterwards.works behind unfinished)

/-- It returns from a pool in which a task waits. -/
theorem destroy_returns_waiting
    : ∃ history system,
        Run Step (System.init fun _ => ⟨0, 0⟩) (.accepted ⟨1, 2⟩ :: .stopped :: history) system
        ∧ system.destroyer = .done := by
  obtain ⟨system, possible, called⟩ : ∃ system,
      scheduled (System.init fun _ => ⟨0, 0⟩) [.add 1 2 fun _ => false, .destroy]
        = some (system, [.accepted ⟨1, 2⟩, .stopped])
      ∧ system.destroyer ≠ .idle :=
    ⟨_, rfl, by simp⟩
  have run := run_of_scheduled possible
  obtain ⟨-, -, events, later, work, done⟩ := destroy_returns run called
  exact ⟨events, later, run.append (run_of_work work), done⟩

end LowlevelAcademy.Correctness
