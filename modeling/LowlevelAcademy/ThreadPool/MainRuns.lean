import LowlevelAcademy.ThreadPool.Ownership
import LowlevelAcademy.ThreadPool.Progress

/-! What every step of the program keeps: the pool is one of its own runs, the allocated numbers
have their owners, and nothing invalid is done.
-/

namespace LowlevelAcademy.ThreadPool

open LowlevelAcademy.Foundations

-----------------------------------------------------------------------------------------
-- Steps of the pool, as the tasks see them
-----------------------------------------------------------------------------------------

/-- The task that a worker runs, if any. -/
def running : WorkerState → Option Task
  | .running task => some task
  | .contending | .asleep | .exited => none

/-- The tasks that the workers of a system run. -/
def held (system : System) (worker : Worker) : Option Task := running (system.workers worker)

/-- The event that a choice of the scheduler leads to. -/
def Makes : Choice → Event → Prop
  | .add function arg _, event =>
      event = .accepted ⟨function, arg⟩ ∨ event = .rejected ⟨function, arg⟩
  | .lock worker, event =>
      event = .slept worker ∨ event = .exited worker ∨ ∃ task, event = .took worker task
  | .finish worker, event => ∃ task, event = .executed worker task
  | .spurious worker, event => event = .woke worker
  | .destroy, event => event = .stopped
  | .join, event => event = .destroyed ∨ ∃ worker, event = .joined worker

variable {system next : System} {event : Event} {ring : Ring queueSize Task}

theorem makes_of_step {choice : Choice} (result : systemStep system choice = some (next, event))
    : Makes choice event := by
  cases choice with
  | add function arg woken =>
      simp only [systemStep, addStep] at result
      split_ifs at result
      split at result
      · cases result
      · exact Or.inl (Prod.mk.inj (Option.some.inj result)).2.symm
      · exact Or.inr (Prod.mk.inj (Option.some.inj result)).2.symm
  | lock worker =>
      simp only [systemStep, lockStep] at result
      split_ifs at result
      split at result
      · cases result
      · exact Or.inl (Prod.mk.inj (Option.some.inj result)).2.symm
      · exact Or.inr (Or.inl (Prod.mk.inj (Option.some.inj result)).2.symm)
      · exact Or.inr (Or.inr ⟨_, (Prod.mk.inj (Option.some.inj result)).2.symm⟩)
  | finish worker =>
      simp only [systemStep] at result
      split at result
      · exact ⟨_, (Prod.mk.inj (Option.some.inj result)).2.symm⟩
      · cases result
  | spurious worker =>
      simp only [systemStep] at result
      split_ifs at result
      exact (Prod.mk.inj (Option.some.inj result)).2.symm
  | destroy =>
      simp only [systemStep] at result
      split_ifs at result
      exact (Prod.mk.inj (Option.some.inj result)).2.symm
  | join =>
      simp only [systemStep, joinStep] at result
      split at result
      · split_ifs at result
        · exact Or.inr ⟨_, (Prod.mk.inj (Option.some.inj result)).2.symm⟩
        · exact Or.inl (Prod.mk.inj (Option.some.inj result)).2.symm
      · cases result

/-- Waking workers changes nothing about what they run. -/
theorem running_wake (woken : Worker → Bool) (workers : Worker → WorkerState) (worker : Worker)
    : running (wake woken workers worker) = running (workers worker) := by
  rw [wake]
  split_ifs with sleeper
  · rw [sleeper.1]
    rfl
  · rfl

/-- A worker that moves runs what it runs now. -/
theorem running_update (workers : Worker → WorkerState) (worker : Worker) (state : WorkerState)
    : (fun other => running (Function.update workers worker state other))
      = Function.update (fun other => running (workers other)) worker (running state) :=
  funext fun other => Function.apply_update (fun _ => running) workers worker state other

/-- The tasks that workers run behind a step. -/
theorem held_of_step (step : ThreadStep system next event)
    : match event with
      | .took worker task =>
          held system worker = none ∧ held next = Function.update (held system) worker (some task)
      | .executed worker task =>
          held system worker = some task ∧ held next = Function.update (held system) worker none
      | _ => held next = held system := by
  -- a worker that moves between places where it runs nothing
  have idle {worker : Worker} {state : WorkerState} {pool : Threadpool} {destroyer : Destroyer}
      (before : running (system.workers worker) = none) (after : running state = none)
      : held ⟨pool, Function.update system.workers worker state, destroyer⟩ = held system := by
    change (fun other => running (Function.update system.workers worker state other)) = _
    rw [running_update, after, ← before]
    exact Function.update_eq_self worker (held system)
  cases step with
  | accepted => exact funext (running_wake _ _)
  | stopped => exact funext (running_wake _ _)
  | rejected | joined | destroyed => rfl
  | slept contends => exact idle (by rw [contends]; rfl) rfl
  | exited contends => exact idle (by rw [contends]; rfl) rfl
  | woke sleeps => exact idle (by rw [sleeps]; rfl) rfl
  | took contends =>
      exact ⟨by rw [held, contends]; rfl, running_update _ _ _⟩
  | executed holds =>
      exact ⟨by rw [held, holds]; rfl, running_update _ _ _⟩

/-- The tasks that wait behind a step. -/
theorem waiting_of_step (keeps : system.pool.Keeps ring) (step : Step system event next)
    : ∃ after,
        next.pool.Keeps after
        ∧ match event with
          | .accepted task => after.contents = ring.contents ++ [task]
          | .took _ task => ring.contents = task :: after.contents
          | _ => after.contents = ring.contents := by
  obtain ⟨after, moved⟩ := poolStep_of_step keeps step
  refine ⟨after, moved.keeps keeps, ?_⟩
  cases moved with
  | accepted room => exact Ring.contents_push _ _ _
  | took _ used => exact Ring.contents_pop _ used
  | rejected | stopped => rfl
  | other none => cases event <;> first | rfl | cases none

-----------------------------------------------------------------------------------------
-- Steps of the program
-----------------------------------------------------------------------------------------

/-- The numbers that are allocated have their owners, and each was printed as it should be. -/
def Holds (exampleTask : Pointer) (program : Program) (numbers : List Int) : Prop :=
  ∃ ring first,
    program.system.pool.Keeps ring
    ∧ Owns exampleTask program.heap (held program.system) ring.contents first program.main.mine
    ∧ Prints program.heap (held program.system) program.printed first numbers
    ∧ first + ring.contents.length = program.main.added

variable {exampleTask : Pointer} {program after : Program} {numbers : List Int}

/-- A step of the pool that neither adds a task nor ends one leaves it so. -/
theorem Holds.quiet (holds : Holds exampleTask program numbers)
    (step : Step program.system event next) (noAdd : event.isAdd = false)
    (noEnd : ∀ worker task, event ≠ .executed worker task) {main : MainState}
    (mine : main.mine = program.main.mine) (added : main.added = program.main.added)
    : Holds exampleTask { program with system := next, main := main } numbers := by
  obtain ⟨ring, first, keeps, owns, prints, counted⟩ := holds
  obtain ⟨later, kept, waiting⟩ := waiting_of_step keeps step
  have tasks := held_of_step (threadStep_of_step step)
  cases event with
  | accepted | rejected => cases noAdd
  | executed => exact absurd rfl (noEnd _ _)
  | took worker task =>
      obtain ⟨idle, tasks⟩ := tasks
      simp only at waiting
      rw [waiting] at owns counted
      refine ⟨later, first + 1, kept, ?_, ?_, ?_⟩
      · rw [mine, tasks]
        exact owns.take idle
      · rw [tasks]
        exact prints.take owns idle
      · rw [added, ← counted, List.length_cons]
        omega
  | slept | exited | woke | stopped | joined | destroyed =>
      refine ⟨later, first, kept, ?_, ?_, ?_⟩
      · simpa only [mine, tasks, waiting] using owns
      · simpa only [tasks] using prints
      · simpa only [added, waiting] using counted

/-- `main` allocates the number of its next task. -/
theorem Holds.malloc {i : Nat} {taskNum : Pointer} (holds : Holds exampleTask program numbers)
    (main : program.main = .looping i) (free : program.heap taskNum = none)
    : Holds exampleTask {
        program with
        main := .allocated i taskNum
        heap := Function.update program.heap taskNum (some i)
      } numbers := by
  obtain ⟨ring, first, keeps, owns, prints, counted⟩ := holds
  rw [main] at owns counted
  have mallocs := owns.malloc free
  rw [counted] at mallocs
  refine ⟨ring, first, keeps, mallocs, prints.frame fun worker task holds => ?_, counted⟩
  refine Function.update_of_ne (fun same => ?_) _ _
  exact owns.allocated (Or.inr ⟨worker, holds⟩) (same ▸ free)

/-- `main` adds its next task, for which there is room. -/
theorem Holds.add {i : Nat} {taskNum : Pointer} {woken : Worker → Bool}
    (holds : Holds exampleTask program numbers) (main : program.main = .allocated i taskNum)
    (bound : i < 100)
    (result : systemStep program.system (.add exampleTask taskNum woken) = some (next, event))
    : event = .accepted ⟨exampleTask, taskNum⟩
      ∧ Holds exampleTask { program with system := next, main := .looping (i + 1) } numbers := by
  obtain ⟨ring, first, keeps, owns, prints, counted⟩ := holds
  rw [main] at owns counted
  have step : Step program.system event next := ⟨_, result⟩
  rcases makes_of_step result with rfl | rfl
  · refine ⟨rfl, ?_⟩
    obtain ⟨later, kept, waiting⟩ := waiting_of_step keeps step
    have tasks := held_of_step (threadStep_of_step step)
    simp only at waiting tasks
    refine ⟨later, first, kept, ?_, ?_, ?_⟩
    · rw [waiting, tasks]
      exact owns.add
    · rw [tasks]
      exact prints
    · rw [waiting, List.length_append, List.length_singleton, ← Nat.add_assoc, counted]
      rfl
  · -- a full queue would hold more tasks than were added
    exfalso
    obtain ⟨_, moved⟩ := poolStep_of_step keeps step
    cases moved with
    | rejected full =>
        rw [Ring.contents_length, full] at counted
        simp only [MainState.added, queueSize] at counted
        omega
    | other none => cases none

/-- A worker prints the number of its task, which is a call of `example_task` and still
allocated.
-/
theorem Holds.print {worker : Worker} {task : Task} (holds : Holds exampleTask program numbers)
    (runs : program.system.workers worker = .running task)
    (silent : program.printed worker = false)
    : ∃ num,
        exampleTaskPrints exampleTask program worker task
          = ({ program with printed := Function.update program.printed worker true },
            .printed worker num)
        ∧ Holds exampleTask
            { program with printed := Function.update program.printed worker true }
            (numbers ++ [num]) := by
  obtain ⟨ring, first, keeps, owns, prints, counted⟩ := holds
  have own : held program.system worker = some task := by rw [held, runs, running]
  obtain ⟨n, -, number⟩ := owns.holds worker task own
  have calls := owns.calls task (Or.inr ⟨worker, own⟩)
  refine ⟨n, ?_, ring, first, keeps, owns, prints.print owns own silent number, counted⟩
  rw [exampleTaskPrints, if_pos calls, number]

/-- The number of a task that a worker runs is allocated. -/
theorem Holds.number {worker : Worker} {task : Task} (holds : Holds exampleTask program numbers)
    (runs : program.system.workers worker = .running task)
    : ∃ num, program.heap task.arg = some num := by
  obtain ⟨ring, first, -, owns, -, -⟩ := holds
  have own : held program.system worker = some task := by rw [held, runs, running]
  obtain ⟨n, -, number⟩ := owns.holds worker task own
  exact ⟨n, number⟩

/-- A worker that has printed frees its number and is done with its task. -/
theorem Holds.free {worker : Worker} {task : Task} {entry : ProgramEvent}
    (holds : Holds exampleTask program numbers)
    (runs : program.system.workers worker = .running task)
    (spoke : program.printed worker = true)
    (result : exampleTaskFrees program worker task = some (after, entry))
    : ∃ next,
        systemStep program.system (.finish worker) = some (next, .executed worker task)
        ∧ entry = .pool (.executed worker task)
        ∧ after.system = next
        ∧ after.main = program.main
        ∧ Holds exampleTask after numbers := by
  obtain ⟨ring, first, keeps, owns, prints, counted⟩ := holds
  have own : held program.system worker = some task := by rw [held, runs, running]
  obtain ⟨n, -, number⟩ := owns.holds worker task own
  have finish : ∃ next, systemStep program.system (.finish worker)
      = some (next, .executed worker task) :=
    ⟨_, by rw [systemStep, runs]⟩
  obtain ⟨next, finish⟩ := finish
  simp only [exampleTaskFrees, number, Program.onPool, finish] at result
  obtain ⟨rfl, rfl⟩ := Prod.mk.inj (Option.some.inj result)
  refine ⟨next, finish, rfl, rfl, rfl, ?_⟩
  have step : Step program.system (.executed worker task) next := ⟨_, finish⟩
  obtain ⟨later, kept, waiting⟩ := waiting_of_step keeps step
  obtain ⟨-, tasks⟩ := held_of_step (threadStep_of_step step)
  simp only at waiting
  refine ⟨later, first, kept, ?_, ?_, ?_⟩
  · rw [waiting, tasks]
    exact owns.free own
  · rw [tasks]
    exact prints.free owns own spoke
  · rw [waiting]
    exact counted

-----------------------------------------------------------------------------------------
-- Runs of the program
-----------------------------------------------------------------------------------------

/-- No task was turned away, and nothing invalid was done. -/
def Clean (event : ProgramEvent) : Prop :=
  (∀ worker, event ≠ .invalid worker) ∧ ∀ task, event ≠ .pool (.rejected task)

/-- What holds in every state of every run of the program. -/
structure Sound (exampleTask : Pointer) (memory : Fin queueSize → Task)
    (history : List ProgramEvent) (program : Program)
    : Prop where
  pool : Run Step (System.init memory) (poolEvents history) program.system
  holds : Holds exampleTask program (printedNumbers history)
  clean : ∀ event ∈ history, Clean event
  bound : program.main.added ≤ 100
  next : program.main.mine ≠ none → program.main.added < 100
  called : program.system.destroyer ≠ .idle ↔ program.main = .destroying

variable {memory : Fin queueSize → Task} {history : List ProgramEvent} {entry : ProgramEvent}

theorem sound_init : Sound exampleTask memory [] (Program.init memory) where
  pool := .nil
  holds := ⟨initialRing memory, 0, threadpoolInit_keeps memory, owns_nothing,
    ⟨.nil, by simp [printedNumbers], by simp [Program.init]⟩, rfl⟩
  clean := by simp
  bound := Nat.zero_le _
  next := by simp [Program.init, MainState.mine]
  called := by simp [Program.init, System.init]

/-- `threadpool_destroy` was called behind the stop request, and from then on. -/
theorem called_of_step (step : ThreadStep system next event)
    : next.destroyer ≠ .idle ↔ event = .stopped ∨ system.destroyer ≠ .idle := by
  cases step with
  | accepted | rejected | slept | exited | took | executed | woke | stopped => simp
  | joined _ joining | destroyed joining => simp [joining]

/-- A step of the pool keeps the rest. -/
theorem Sound.onPool (sound : Sound exampleTask memory history program)
    (step : Step program.system event after.system)
    (holds : Holds exampleTask after (printedNumbers history))
    (accepted : ∀ task, event ≠ .rejected task) (bound : after.main.added ≤ 100)
    (next : after.main.mine ≠ none → after.main.added < 100)
    (stops : after.main = .destroying ↔ event = .stopped ∨ program.main = .destroying)
    : Sound exampleTask memory (history ++ [.pool event]) after := by
  refine ⟨?_, ?_, fun other member => ?_, bound, next, ?_⟩
  · rw [poolEvents, List.filterMap_append]
    exact sound.pool.snoc step
  · simpa [printedNumbers] using holds
  · rcases List.mem_append.mp member with earlier | last
    · exact sound.clean other earlier
    · rw [List.mem_singleton.mp last]
      exact ⟨by simp, by simpa using accepted⟩
  · rw [called_of_step (threadStep_of_step step), sound.called, stops]

/-- So does a step that leaves the pool alone. -/
theorem Sound.outside (sound : Sound exampleTask memory history program)
    (same : after.system = program.system)
    (none : poolEvents [entry] = [])
    (holds : Holds exampleTask after (printedNumbers (history ++ [entry])))
    (clean : Clean entry) (bound : after.main.added ≤ 100)
    (next : after.main.mine ≠ .none → after.main.added < 100)
    (stays : after.main = .destroying ↔ program.main = .destroying)
    : Sound exampleTask memory (history ++ [entry]) after := by
  refine ⟨?_, holds, fun other member => ?_, bound, next, ?_⟩
  · rw [poolEvents, List.filterMap_append, ← poolEvents, ← poolEvents, none, List.append_nil, same]
    exact sound.pool
  · rcases List.mem_append.mp member with earlier | last
    · exact sound.clean other earlier
    · rwa [List.mem_singleton.mp last]
  · rw [same, sound.called, stays]

/-- A step on the pool is one of the pool's. -/
theorem onPool_step {choice : Choice} {main : MainState}
    (result : program.onPool choice main = some (after, entry))
    : ∃ next event,
        systemStep program.system choice = some (next, event)
        ∧ after = { program with system := next, main := main }
        ∧ entry = .pool event := by
  simp only [Program.onPool] at result
  split at result
  · next system event step =>
      obtain ⟨rfl, rfl⟩ := Prod.mk.inj (Option.some.inj result)
      exact ⟨system, event, step, rfl, rfl⟩
  · cases result

/-- A step of the pool that `main` is not part of. -/
theorem Sound.quiet {choice : Choice} (sound : Sound exampleTask memory history program)
    (result : program.onPool choice program.main = some (after, entry))
    (quiet
      : ∀ event,
          Makes choice event
          → event.isAdd = false ∧ event ≠ .stopped ∧ ∀ worker task, event ≠ .executed worker task)
    : Sound exampleTask memory (history ++ [entry]) after := by
  obtain ⟨next, event, made, rfl, rfl⟩ := onPool_step result
  obtain ⟨noAdd, noStop, noEnd⟩ := quiet event (makes_of_step made)
  have step : Step program.system event next := ⟨choice, made⟩
  refine sound.onPool step (sound.holds.quiet step noAdd noEnd rfl rfl) ?_ sound.bound sound.next
    (by simp [noStop])
  rintro task rfl
  cases noAdd

/-- Every step keeps it. -/
theorem Sound.step (sound : Sound exampleTask memory history program)
    (step : ProgramStep exampleTask program entry after)
    : Sound exampleTask memory (history ++ [entry]) after := by
  obtain ⟨choice, result⟩ := step
  have bound := sound.bound
  have further := sound.next
  cases choice with
  | malloc taskNum =>
      cases main : program.main with
      | looping i =>
          simp only [programStep, main] at result
          split_ifs at result with possible
          obtain ⟨rfl, rfl⟩ := Prod.mk.inj (Option.some.inj result)
          obtain ⟨more, -, free⟩ := possible
          refine sound.outside rfl rfl ?_ ⟨by simp, by simp⟩ more.le (fun _ => more)
            (by simp [main])
          simpa [printedNumbers] using sound.holds.malloc main free
      | allocated | destroying => simp [programStep, main] at result
  | add woken =>
      cases main : program.main with
      | allocated i taskNum =>
          simp only [programStep, main] at result
          obtain ⟨next, event, made, rfl, rfl⟩ := onPool_step result
          have more : i < 100 := by
            rw [main] at further
            exact further (by simp [MainState.mine])
          obtain ⟨rfl, holds⟩ := sound.holds.add main more made
          exact sound.onPool ⟨_, made⟩ holds (by simp) more (by simp [MainState.mine])
            (by simp [main])
      | looping | destroying => simp [programStep, main] at result
  | destroy =>
      cases main : program.main with
      | looping i =>
          simp only [programStep, main] at result
          split_ifs at result with more
          obtain ⟨next, event, made, rfl, rfl⟩ := onPool_step result
          rw [main] at bound
          have all : i = 100 := le_antisymm bound (not_lt.mp more)
          obtain rfl : event = .stopped := makes_of_step made
          have holds : Holds exampleTask { program with system := next, main := .destroying } _ :=
            sound.holds.quiet ⟨_, made⟩ rfl (by simp) (by rw [main]; rfl) (by rw [main, all]; rfl)
          exact sound.onPool ⟨_, made⟩ holds (by simp) (le_refl _) (by simp [MainState.mine])
            (by simp)
      | allocated | destroying => simp [programStep, main] at result
  | join =>
      refine sound.quiet result fun event makes => ?_
      rcases makes with rfl | ⟨worker, rfl⟩ <;> exact ⟨rfl, by simp, by simp⟩
  | lock worker =>
      refine sound.quiet result fun event makes => ?_
      rcases makes with rfl | rfl | ⟨task, rfl⟩ <;> exact ⟨rfl, by simp, by simp⟩
  | spurious worker =>
      refine sound.quiet result fun event makes => ?_
      obtain rfl : event = .woke worker := makes
      exact ⟨rfl, by simp, by simp⟩
  | print worker =>
      simp only [programStep] at result
      split at result
      · next task runs silent =>
          obtain ⟨num, prints, holds⟩ := sound.holds.print runs silent
          rw [prints] at result
          obtain ⟨rfl, rfl⟩ := Prod.mk.inj (Option.some.inj result)
          refine sound.outside rfl rfl ?_ ⟨by simp, by simp⟩ bound further Iff.rfl
          simpa [printedNumbers] using holds
      · cases result
  | free worker =>
      simp only [programStep] at result
      split at result
      · next task runs spoke =>
          obtain ⟨next, made, rfl, rfl, same, holds⟩ := sound.holds.free runs spoke result
          exact sound.onPool ⟨_, made⟩ holds (by simp) (by rwa [same]) (by rwa [same])
            (by simp [same])
      · cases result

theorem sound_run (run : Run (ProgramStep exampleTask) (Program.init memory) history program)
    : Sound exampleTask memory history program :=
  run.invariant (motive := Sound exampleTask memory) sound_init fun _ _ _ _ sound step =>
    sound.step step

end LowlevelAcademy.ThreadPool
