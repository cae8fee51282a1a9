import LowlevelAcademy.ThreadPool.Refinement

/-! What one step does to the threads: the sleepers and their wake-ups, the tasks that workers
hold, and the stop request. The tasks in the queue are left to the refinement.
-/

namespace LowlevelAcademy.ThreadPool

open LowlevelAcademy.Foundations

/-- The tests behind each way out of a worker's critical section. -/
theorem threadFunction_tests {pool next : Threadpool} {decision : Decision}
    (result : threadFunction pool = some (next, decision))
    : match decision with
      | .wait => next = pool ∧ pool.queued = 0 ∧ pool.stop = false
      | .exit => next = pool ∧ pool.stop = true
      | .run _ => next.stop = false ∧ pool.queued ≠ 0 ∧ pool.stop = false := by
  simp only [threadFunction] at result
  split_ifs at result with empty stopped
  · obtain ⟨rfl, rfl⟩ := Prod.mk.inj (Option.some.inj result)
    exact ⟨rfl, empty.1, by simpa using empty.2⟩
  · obtain ⟨rfl, rfl⟩ := Prod.mk.inj (Option.some.inj result)
    exact ⟨rfl, stopped⟩
  · split at result
    · cases result
    · obtain ⟨rfl, rfl⟩ := Prod.mk.inj (Option.some.inj result)
      have running : pool.stop = false := by simpa using stopped
      exact ⟨running, fun zero => empty ⟨zero, by simp [running]⟩, running⟩

/-- Adding a task does not touch the stop flag, and without a signal it does nothing. -/
theorem threadpoolAddTask_effect {pool next : Threadpool} {function arg : Pointer}
    {signals : Bool} (result : threadpoolAddTask pool function arg = some (next, signals))
    : next.stop = pool.stop ∧ (signals = false → next = pool) := by
  simp only [threadpoolAddTask, Threadpool.setTask] at result
  split_ifs at result
  all_goals
    obtain ⟨rfl, rfl⟩ := Prod.mk.inj (Option.some.inj result)
    simp

/-- What a step does to the threads, and what it found when it started. -/
inductive ThreadStep (system : System) : System → Event → Prop
  | accepted {pool task woken} (signal : SignalWakes system.workers woken)
    (stop : pool.stop = system.pool.stop)
    : ThreadStep system ⟨pool, wake woken system.workers, system.destroyer⟩ (.accepted task)
  | rejected {task} : ThreadStep system system (.rejected task)
  | slept {worker} (contends : system.workers worker = .contending)
    (empty : system.pool.queued = 0) (running : system.pool.stop = false)
    : ThreadStep system
        ⟨system.pool, Function.update system.workers worker .asleep, system.destroyer⟩
        (.slept worker)
  | exited {worker} (contends : system.workers worker = .contending)
    (stopped : system.pool.stop = true)
    : ThreadStep system
        ⟨system.pool, Function.update system.workers worker .exited, system.destroyer⟩
        (.exited worker)
  | took {pool worker task} (contends : system.workers worker = .contending)
    (waiting : system.pool.queued ≠ 0) (running : system.pool.stop = false)
    (stop : pool.stop = false)
    : ThreadStep system
        ⟨pool, Function.update system.workers worker (.running task), system.destroyer⟩
        (.took worker task)
  | executed {worker task} (holds : system.workers worker = .running task)
    : ThreadStep system
        ⟨system.pool, Function.update system.workers worker .contending, system.destroyer⟩
        (.executed worker task)
  | woke {worker} (sleeps : system.workers worker = .asleep)
    : ThreadStep system
        ⟨system.pool, Function.update system.workers worker .contending, system.destroyer⟩
        (.woke worker)
  | stopped (idle : system.destroyer = .idle)
    : ThreadStep system
        ⟨threadpoolDestroy system.pool, wake (fun _ => true) system.workers, .joining 0⟩
        .stopped
  | joined {next} (inside : next < threads) (joining : system.destroyer = .joining next)
    (gone : system.workers ⟨next, inside⟩ = .exited)
    : ThreadStep system ⟨system.pool, system.workers, .joining (next + 1)⟩
        (.joined ⟨next, inside⟩)
  | destroyed {next} (joining : system.destroyer = .joining next) (all : threads ≤ next)
    : ThreadStep system ⟨system.pool, system.workers, .done⟩ .destroyed

variable {system next : System} {event : Event}

/-- Every step is one of these. -/
theorem threadStep_of_step (step : Step system event next) : ThreadStep system next event := by
  obtain ⟨choice, result⟩ := step
  cases choice with
  | add function arg woken =>
      simp only [systemStep, addStep] at result
      split_ifs at result with possible
      split at result
      · cases result
      · next added =>
          obtain ⟨rfl, rfl⟩ := Prod.mk.inj (Option.some.inj result)
          exact .accepted possible.2 (threadpoolAddTask_effect added).1
      · next added =>
          obtain ⟨rfl, rfl⟩ := Prod.mk.inj (Option.some.inj result)
          obtain rfl := (threadpoolAddTask_effect added).2 rfl
          exact .rejected
  | lock worker =>
      simp only [systemStep, lockStep] at result
      split_ifs at result with contends
      split at result
      · cases result
      · next critical =>
          obtain ⟨rfl, rfl⟩ := Prod.mk.inj (Option.some.inj result)
          obtain ⟨rfl, empty, running⟩ := threadFunction_tests critical
          exact .slept contends empty running
      · next critical =>
          obtain ⟨rfl, rfl⟩ := Prod.mk.inj (Option.some.inj result)
          obtain ⟨rfl, stopped⟩ := threadFunction_tests critical
          exact .exited contends stopped
      · next critical =>
          obtain ⟨rfl, rfl⟩ := Prod.mk.inj (Option.some.inj result)
          obtain ⟨stop, waiting, running⟩ := threadFunction_tests critical
          exact .took contends waiting running stop
  | finish worker =>
      simp only [systemStep] at result
      split at result
      · next task holds =>
          obtain ⟨rfl, rfl⟩ := Prod.mk.inj (Option.some.inj result)
          exact .executed holds
      · cases result
  | spurious worker =>
      simp only [systemStep] at result
      split_ifs at result with sleeps
      obtain ⟨rfl, rfl⟩ := Prod.mk.inj (Option.some.inj result)
      exact .woke sleeps
  | destroy =>
      simp only [systemStep] at result
      split_ifs at result with idle
      obtain ⟨rfl, rfl⟩ := Prod.mk.inj (Option.some.inj result)
      exact .stopped idle
  | join =>
      simp only [systemStep, joinStep] at result
      split at result
      · next number joining =>
          split_ifs at result with inside gone
          · obtain ⟨rfl, rfl⟩ := Prod.mk.inj (Option.some.inj result)
            exact .joined inside joining gone
          · obtain ⟨rfl, rfl⟩ := Prod.mk.inj (Option.some.inj result)
            exact .destroyed joining (Nat.le_of_not_lt inside)
      · cases result

-----------------------------------------------------------------------------------------
-- Sleepers
-----------------------------------------------------------------------------------------

/-- Someone is awake while tasks wait, and everyone once the pool is stopped. -/
structure System.Awake (system : System) : Prop where
  someone
    : system.pool.queued ≠ 0
      → system.pool.stop = false
      → ∃ worker, system.workers worker ≠ .asleep
  everyone : system.pool.stop = true → ∀ worker, system.workers worker ≠ .asleep

/-- Waking makes no one sleep, and whoever is woken does not sleep. -/
theorem wake_ne_asleep {woken : Worker → Bool} {workers : Worker → WorkerState}
    {worker : Worker} (awake : workers worker ≠ .asleep ∨ woken worker)
    : wake woken workers worker ≠ .asleep := by
  rw [wake]
  split_ifs with sleeper
  · simp
  · rcases awake with already | signalled
    · exact already
    · exact fun sleeps => sleeper ⟨sleeps, signalled⟩

/-- After a signal someone is awake: a sleeper if there was one, any worker otherwise. -/
theorem SignalWakes.someone {woken : Worker → Bool} {workers : Worker → WorkerState}
    (signal : SignalWakes workers woken)
    : ∃ worker, wake woken workers worker ≠ .asleep := by
  by_cases sleeper : ∃ worker, workers worker = .asleep
  · obtain ⟨worker, -, signalled⟩ := signal sleeper
    exact ⟨worker, wake_ne_asleep (Or.inr signalled)⟩
  · have first : workers 0 ≠ .asleep := fun sleeps => sleeper ⟨0, sleeps⟩
    exact ⟨0, wake_ne_asleep (Or.inl first)⟩

/-- A worker that moves to a place other than sleep is awake there, and so are the others that
were awake.
-/
theorem update_ne_asleep {workers : Worker → WorkerState} {state : WorkerState}
    (moved : state ≠ .asleep) (worker other : Worker)
    (awake : other = worker ∨ workers other ≠ .asleep)
    : Function.update workers worker state other ≠ .asleep := by
  by_cases same : other = worker
  · subst same
    rwa [Function.update_self]
  · rw [Function.update_of_ne same]
    exact awake.resolve_left same

/-- Every step leaves it so. A worker falls asleep only when no task waits and the pool runs;
the step that ends this wakes someone.
-/
theorem ThreadStep.awake (step : ThreadStep system next event) (awake : system.Awake)
    : next.Awake := by
  cases step with
  | accepted signal stop =>
      refine ⟨fun _ _ => signal.someone, fun stopped worker => ?_⟩
      exact wake_ne_asleep (Or.inl (awake.everyone (stop ▸ stopped) worker))
  | rejected => exact awake
  | slept _ empty running =>
      refine ⟨fun waiting => absurd empty waiting, fun stopped => ?_⟩
      rw [running] at stopped
      cases stopped
  | @exited worker _ stopped =>
      refine ⟨fun _ running => ?_, fun _ other => ?_⟩
      · rw [stopped] at running
        cases running
      · exact update_ne_asleep (by simp) worker other (Or.inr (awake.everyone stopped other))
  | @took pool worker task _ _ _ stop =>
      refine ⟨fun _ _ => ⟨worker, ?_⟩, fun stopped => ?_⟩
      · exact update_ne_asleep (by simp) worker worker (Or.inl rfl)
      · rw [stop] at stopped
        cases stopped
  | @executed worker task _ =>
      refine ⟨fun _ _ => ⟨worker, ?_⟩, fun stopped other => ?_⟩
      · exact update_ne_asleep (by simp) worker worker (Or.inl rfl)
      · exact update_ne_asleep (by simp) worker other (Or.inr (awake.everyone stopped other))
  | @woke worker _ =>
      refine ⟨fun _ _ => ⟨worker, ?_⟩, fun stopped other => ?_⟩
      · exact update_ne_asleep (by simp) worker worker (Or.inl rfl)
      · exact update_ne_asleep (by simp) worker other (Or.inr (awake.everyone stopped other))
  | stopped =>
      refine ⟨fun _ running => ?_, fun _ worker => ?_⟩
      · cases running
      · apply wake_ne_asleep
        exact Or.inr rfl
  | joined => exact ⟨awake.someone, awake.everyone⟩
  | destroyed => exact ⟨awake.someone, awake.everyone⟩

/-- It is so along every run, since no one sleeps at the start. -/
theorem awake_run {memory : Fin queueSize → Task} {history : List Event}
    (run : Run Step (System.init memory) history system)
    : system.Awake := by
  refine run.stateInvariant (motive := System.Awake) ?_ ?_
  · exact ⟨fun waiting => absurd rfl waiting, fun _ _ => by simp [System.init]⟩
  · intro system event next awake step
    exact (threadStep_of_step step).awake awake

-----------------------------------------------------------------------------------------
-- Shutting down
-----------------------------------------------------------------------------------------

/-- Where `threadpool_destroy` stands agrees with the pool and the workers: the pool is stopped
once it was called, only then workers exit, and those it has joined did.
-/
structure System.Closing (system : System) : Prop where
  called : system.pool.stop = true ↔ system.destroyer ≠ .idle
  exits : ∀ worker, system.workers worker = .exited → system.pool.stop = true
  joined
    : ∀ next worker,
        system.destroyer = .joining next
        → worker.val < next
        → system.workers worker = .exited
  done : system.destroyer = .done → ∀ worker, system.workers worker = .exited

/-- A worker that moves leaves it so, unless it exits from a running pool: it had not exited
before.
-/
theorem System.Closing.update {pool : Threadpool} {worker : Worker} {state : WorkerState}
    (closing : system.Closing) (stop : pool.stop = system.pool.stop)
    (alive : system.workers worker ≠ .exited)
    (exits : state = .exited → system.pool.stop = true)
    : System.Closing
        ⟨pool, Function.update system.workers worker state, system.destroyer⟩ := by
  have others {other : Worker} (exited : system.workers other = .exited)
      : Function.update system.workers worker state other = .exited := by
    rwa [Function.update_of_ne]
    rintro rfl
    exact alive exited
  refine ⟨by rw [stop]; exact closing.called, fun other exited => ?_, ?_, ?_⟩
  · rw [stop]
    by_cases same : other = worker
    · subst same
      exact exits (by simpa using exited)
    · exact closing.exits other (by simpa [same] using exited)
  · exact fun next other joining before => others (closing.joined next other joining before)
  · exact fun done other => others (closing.done done other)

/-- Waking workers leaves it so: it neither lets one exit nor brings one back. -/
theorem wake_exited {woken : Worker → Bool} {workers : Worker → WorkerState} {worker : Worker}
    : wake woken workers worker = .exited ↔ workers worker = .exited := by
  rw [wake]
  split_ifs with sleeper
  · simp [sleeper.1]
  · rfl

/-- Every step leaves it so. -/
theorem ThreadStep.closing (step : ThreadStep system next event) (closing : system.Closing)
    : next.Closing := by
  cases step with
  | accepted _ stop =>
      refine ⟨by rw [stop]; exact closing.called, fun worker exited => ?_, ?_, ?_⟩
      · rw [stop]
        exact closing.exits worker (wake_exited.mp exited)
      · exact fun next worker joining before =>
          wake_exited.mpr (closing.joined next worker joining before)
      · exact fun done worker => wake_exited.mpr (closing.done done worker)
  | rejected => exact closing
  | slept contends => exact closing.update rfl (by simp [contends]) (by simp)
  | exited contends stopped => exact closing.update rfl (by simp [contends]) fun _ => stopped
  | took contends _ running stop =>
      exact closing.update (stop.trans running.symm) (by simp [contends]) (by simp)
  | executed holds => exact closing.update rfl (by simp [holds]) (by simp)
  | woke sleeps => exact closing.update rfl (by simp [sleeps]) (by simp)
  | stopped =>
      refine ⟨by simp [threadpoolDestroy], fun _ _ => rfl, ?_, by simp⟩
      rintro next worker same before
      cases same
      exact absurd before (Nat.not_lt_zero _)
  | @joined number inside joining gone =>
      refine ⟨?_, closing.exits, ?_, by simp⟩
      · rw [closing.called]
        simp [joining]
      · rintro next worker same before
        cases same
        rcases Nat.lt_succ_iff_lt_or_eq.mp before with earlier | last
        · exact closing.joined number worker joining earlier
        · obtain rfl : worker = ⟨number, inside⟩ := Fin.ext last
          exact gone
  | @destroyed number joining all =>
      refine ⟨?_, closing.exits, by simp, fun _ worker => ?_⟩
      · rw [closing.called]
        simp [joining]
      · exact closing.joined number worker joining (worker.isLt.trans_le all)

/-- It is so along every run. -/
theorem closing_run {memory : Fin queueSize → Task} {history : List Event}
    (run : Run Step (System.init memory) history system)
    : system.Closing := by
  refine run.stateInvariant (motive := System.Closing) ?_ ?_
  · exact ⟨by simp [System.init, threadpoolInit], by simp [System.init], by simp [System.init],
      by simp [System.init]⟩
  · intro system event next closing step
    exact (threadStep_of_step step).closing closing

end LowlevelAcademy.ThreadPool
