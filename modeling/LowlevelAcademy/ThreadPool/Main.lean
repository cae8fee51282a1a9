import LowlevelAcademy.ThreadPool.Threads

/-! The program around the pool: `main`, which allocates a number for each task and adds the
task, and `example_task`, which prints the number and frees it.
-/

namespace LowlevelAcademy.ThreadPool

open LowlevelAcademy.Foundations

/-- Where `main` stands: at the top of its loop or behind it, with a number that was allocated
and set, or in `threadpool_destroy`.
-/
inductive MainState where
  | looping (i : Nat)
  | allocated (i : Nat) (taskNum : Pointer)
  | destroying
  deriving DecidableEq

/-- The pool, `main`, the numbers that are allocated, and which workers have printed in the task
that they run.
-/
structure Program where
  system : System
  main : MainState
  heap : Pointer → Option Int
  printed : Worker → Bool

/-- After `threadpool_init`. -/
def Program.init (memory : Fin queueSize → Task) : Program where
  system := System.init memory
  main := .looping 0
  heap := fun _ => none
  printed := fun _ => false

/-- What the scheduler lets happen next; `malloc` chooses where it allocates. -/
inductive ProgramChoice where
  | malloc (taskNum : Pointer)
  | add (woken : Worker → Bool)
  | destroy
  | join
  | lock (worker : Worker)
  | spurious (worker : Worker)
  | print (worker : Worker)
  | free (worker : Worker)

/-- What a step does. A call of something else than `example_task`, a read behind a pointer that
is not allocated and a `free` of it are invalid.
-/
inductive ProgramEvent where
  | allocated (taskNum : Pointer)
  | pool (event : Event)
  | printed (worker : Worker) (num : Int)
  | invalid (worker : Worker)
  deriving DecidableEq

/-- A step of the pool, with `main` behind it. -/
def Program.onPool (program : Program) (choice : Choice) (main : MainState)
    : Option (Program × ProgramEvent) :=
  match systemStep program.system choice with
  | some (system, event) => some ({ program with system := system, main := main }, .pool event)
  | none => none

/-- `example_task` up to its `printf`, when it is what the task calls. -/
def exampleTaskPrints (exampleTask : Pointer) (program : Program) (worker : Worker)
    (task : Task)
    : Program × ProgramEvent :=
  if task.fn = exampleTask then
    match program.heap task.arg with
    | some num =>
        ({ program with printed := Function.update program.printed worker true },
          .printed worker num)
    | none => (program, .invalid worker)
  else (program, .invalid worker)

/-- `example_task` behind its `sleep`: the `free`, and back to the loop of the worker. -/
def exampleTaskFrees (program : Program) (worker : Worker) (task : Task)
    : Option (Program × ProgramEvent) :=
  match program.heap task.arg with
  | some _ =>
      Program.onPool {
        program with
        heap := Function.update program.heap task.arg none
        printed := Function.update program.printed worker false
      } (.finish worker) program.main
  | none => some (program, .invalid worker)

/-- One step of the program, where the choice is possible. The address of `example_task` is
given. `malloc` returns a pointer that is neither null nor allocated.
-/
def programStep (exampleTask : Pointer) (program : Program)
    : ProgramChoice → Option (Program × ProgramEvent)
  | .malloc taskNum =>
      match program.main with
      | .looping i =>
          if i < 100 ∧ taskNum ≠ 0 ∧ program.heap taskNum = none then
            some ({
              program with
              main := .allocated i taskNum
              heap := Function.update program.heap taskNum (some i)
            }, .allocated taskNum)
          else none
      | .allocated _ _ | .destroying => none
  | .add woken =>
      match program.main with
      | .allocated i taskNum =>
          program.onPool (.add exampleTask taskNum woken) (.looping (i + 1))
      | .looping _ | .destroying => none
  | .destroy =>
      match program.main with
      | .looping i => if i < 100 then none else program.onPool .destroy .destroying
      | .allocated _ _ | .destroying => none
  | .join => program.onPool .join program.main
  | .lock worker => program.onPool (.lock worker) program.main
  | .spurious worker => program.onPool (.spurious worker) program.main
  | .print worker =>
      match program.system.workers worker, program.printed worker with
      | .running task, false => some (exampleTaskPrints exampleTask program worker task)
      | _, _ => none
  | .free worker =>
      match program.system.workers worker, program.printed worker with
      | .running task, true => exampleTaskFrees program worker task
      | _, _ => none

/-- A step of the program under some choice of the scheduler. -/
def ProgramStep (exampleTask : Pointer) (program : Program) (event : ProgramEvent)
    (next : Program)
    : Prop :=
  ∃ choice, programStep exampleTask program choice = some (next, event)

/-- The number that `main` has allocated and not added yet. -/
def MainState.mine : MainState → Option Pointer
  | .allocated _ taskNum => some taskNum
  | .looping _ | .destroying => none

/-- How many tasks `main` has added. -/
def MainState.added : MainState → Nat
  | .looping i | .allocated i _ => i
  | .destroying => 100

/-- What happens in the pool. -/
def poolEvents (history : List ProgramEvent) : List Event :=
  history.filterMap fun
    | .pool event => some event
    | _ => none

/-- The numbers that were printed, in order. -/
def printedNumbers (history : List ProgramEvent) : List Int :=
  history.filterMap fun
    | .printed _ num => some num
    | _ => none

end LowlevelAcademy.ThreadPool
