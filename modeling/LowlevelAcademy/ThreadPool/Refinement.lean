import LowlevelAcademy.ThreadPool.Workers

/-! The pool's queue against a ring, and the ring against a bounded queue: every step of the
threads is an operation of the bounded queue or leaves it alone.
-/

namespace LowlevelAcademy.ThreadPool

open LowlevelAcademy.Foundations

/-- The pool keeps its tasks in the ring: same cells and front, the counter counts the cells
in use, and `queue_back` is the cell behind them.
-/
structure Threadpool.Keeps (pool : Threadpool) (ring : Ring queueSize Task) : Prop where
  cells : pool.taskQueue = ring.cells
  front : pool.queueFront = ring.front.val
  back : pool.queueBack = ring.back.val
  queued : pool.queued = ring.count

/-- The ring of a new pool. -/
def initialRing (memory : Fin queueSize → Task) : Ring queueSize Task :=
  ⟨memory, ⟨0, by decide⟩, 0, by decide⟩

theorem threadpoolInit_keeps (memory : Fin queueSize → Task)
    : (threadpoolInit memory).Keeps (initialRing memory) :=
  ⟨rfl, rfl, rfl, rfl⟩

/-- The next index as C computes it is the next cell of the ring. -/
private theorem tmod_wrap (cell : Fin queueSize)
    : ((cell.val : Int) + 1).tmod queueSize = (Ring.wrap cell 1).val := by
  rw [Int.tmod_eq_emod_of_nonneg (by omega)]
  simp [Ring.wrap]

variable {pool : Threadpool} {ring : Ring queueSize Task}

/-- An index that is a cell of the array leads to the task there. -/
theorem Threadpool.task_cell (pool : Threadpool) (cell : Fin queueSize)
    : pool.task cell.val = some (pool.taskQueue cell) := by
  have inside : 0 ≤ (cell.val : Int) ∧ (cell.val : Int) < queueSize := by
    have bound := cell.isLt
    omega
  simp [Threadpool.task, inside]

theorem Threadpool.setTask_cell (pool : Threadpool) (cell : Fin queueSize) (task : Task)
    : pool.setTask cell.val task
      = some { pool with taskQueue := Function.update pool.taskQueue cell task } := by
  have inside : 0 ≤ (cell.val : Int) ∧ (cell.val : Int) < queueSize := by
    have bound := cell.isLt
    omega
  simp [Threadpool.setTask, inside]

/-- With room in the queue an added task is pushed. -/
theorem Threadpool.Keeps.add (keeps : pool.Keeps ring) (function arg : Pointer)
    (room : ring.count < queueSize)
    : ∃ next,
        threadpoolAddTask pool function arg = some (next, true)
        ∧ next.Keeps (ring.push ⟨function, arg⟩ room)
        ∧ next.stop = pool.stop := by
  have notFull : pool.queued < queueSize := by
    rw [keeps.queued]
    exact_mod_cast room
  have stored := pool.setTask_cell ring.back ⟨function, arg⟩
  rw [← keeps.back] at stored
  let next : Threadpool := {
    taskQueue := Function.update pool.taskQueue ring.back ⟨function, arg⟩
    queued := pool.queued + 1
    queueFront := pool.queueFront
    queueBack := (pool.queueBack + 1).tmod queueSize
    stop := pool.stop
  }
  refine ⟨next, ?_, ⟨?_, ?_, ?_, ?_⟩, rfl⟩
  · simp only [threadpoolAddTask, if_pos notFull, stored, next]
  · simp only [next, keeps.cells, Ring.push]
  · exact keeps.front
  · simp only [next, Ring.back_push, keeps.back, tmod_wrap]
  · simp only [next, keeps.queued, Ring.push]
    omega

/-- A full queue turns a task away and stays as it is. -/
theorem Threadpool.Keeps.add_full (keeps : pool.Keeps ring) (function arg : Pointer)
    (full : ring.count = queueSize)
    : threadpoolAddTask pool function arg = some (pool, false) := by
  have noRoom : ¬ pool.queued < queueSize := by
    rw [keeps.queued, full]
    exact lt_irrefl _
  simp only [threadpoolAddTask, if_neg noRoom]

/-- The three ways in which a worker leaves its critical section. It takes a task only from a
pool that was not stopped and has one, and then the first one.
-/
theorem Threadpool.Keeps.worker (keeps : pool.Keeps ring)
    : (threadFunction pool = some (pool, .wait) ∧ ring.count = 0 ∧ pool.stop = false)
      ∨ (threadFunction pool = some (pool, .exit) ∧ pool.stop = true)
      ∨ ∃ next,
          threadFunction pool = some (next, .run (ring.cells ring.front))
          ∧ 0 < ring.count
          ∧ pool.stop = false
          ∧ next.Keeps ring.pop
          ∧ next.stop = pool.stop := by
  cases stop : pool.stop with
  | true => exact Or.inr (Or.inl ⟨by simp [threadFunction, stop], rfl⟩)
  | false =>
      by_cases empty : ring.count = 0
      · refine Or.inl ⟨?_, empty, rfl⟩
        simp [threadFunction, keeps.queued, empty, stop]
      · have first := pool.task_cell ring.front
        rw [← keeps.front, keeps.cells] at first
        have used : 0 < ring.count := Nat.pos_of_ne_zero empty
        have some_left : ¬ pool.queued = 0 := by
          rw [keeps.queued]
          exact_mod_cast empty
        let next : Threadpool := {
          taskQueue := pool.taskQueue
          queued := pool.queued - 1
          queueFront := (pool.queueFront + 1).tmod queueSize
          queueBack := pool.queueBack
          stop := pool.stop
        }
        refine Or.inr (Or.inr ⟨next, ?_, used, rfl, ⟨keeps.cells, ?_, ?_, ?_⟩, stop⟩)
        · simp [threadFunction, some_left, stop, first, next]
        · simp only [next, keeps.front, tmod_wrap, Ring.pop]
        · rw [Ring.back_pop _ used]
          exact keeps.back
        · simp only [next, keeps.queued, Ring.pop]
          omega

-----------------------------------------------------------------------------------------
-- Steps of the threads
-----------------------------------------------------------------------------------------

/-- The operation on the queue that a step amounts to, if any. -/
def queueOp : Event → Option (QueueOp Task)
  | .accepted task => some (.put task)
  | .rejected task => some (.turnedAway task)
  | .took _ task => some (.taken task)
  | _ => none

/-- What a step can do to the pool and how the queue sees it: it adds a task or turns it away,
takes the first one, requests the stop, or leaves the pool alone.
-/
inductive PoolStep (system : System) (ring : Ring queueSize Task)
    : System → Event → Ring queueSize Task → Prop
  | accepted {pool workers destroyer task} (room : ring.count < queueSize)
    (keeps : Threadpool.Keeps pool (ring.push task room)) (stop : pool.stop = system.pool.stop)
    : PoolStep system ring ⟨pool, workers, destroyer⟩ (.accepted task) (ring.push task room)
  | rejected {task} (full : ring.count = queueSize)
    : PoolStep system ring system (.rejected task) ring
  | took {pool workers destroyer} (worker : Worker) (used : 0 < ring.count)
    (keeps : Threadpool.Keeps pool ring.pop) (stop : pool.stop = system.pool.stop)
    : PoolStep system ring ⟨pool, workers, destroyer⟩
        (.took worker (ring.cells ring.front)) ring.pop
  | stopped {workers destroyer}
    : PoolStep system ring ⟨threadpoolDestroy system.pool, workers, destroyer⟩ .stopped ring
  | other {workers destroyer event} (none : queueOp event = none)
    : PoolStep system ring ⟨system.pool, workers, destroyer⟩ event ring

variable {system next : System} {event : Event}

/-- Every step of a system whose pool keeps a ring is one of these. -/
theorem poolStep_of_step (keeps : system.pool.Keeps ring) (step : Step system event next)
    : ∃ after, PoolStep system ring next event after := by
  obtain ⟨choice, result⟩ := step
  cases choice with
  | add function arg woken =>
      simp only [systemStep, addStep] at result
      split_ifs at result
      rcases Nat.lt_or_eq_of_le ring.bound with room | full
      · obtain ⟨pool, added, kept, stop⟩ := keeps.add function arg room
        rw [added] at result
        obtain ⟨rfl, rfl⟩ := Prod.mk.inj (Option.some.inj result)
        exact ⟨_, .accepted room kept stop⟩
      · rw [keeps.add_full function arg full] at result
        obtain ⟨rfl, rfl⟩ := Prod.mk.inj (Option.some.inj result)
        exact ⟨_, .rejected full⟩
  | lock worker =>
      simp only [systemStep, lockStep] at result
      split_ifs at result
      rcases keeps.worker with ⟨critical, -⟩ | ⟨critical, -⟩ | ⟨pool, critical, used, -, kept, stop⟩
      · rw [critical] at result
        obtain ⟨rfl, rfl⟩ := Prod.mk.inj (Option.some.inj result)
        exact ⟨_, .other rfl⟩
      · rw [critical] at result
        obtain ⟨rfl, rfl⟩ := Prod.mk.inj (Option.some.inj result)
        exact ⟨_, .other rfl⟩
      · rw [critical] at result
        obtain ⟨rfl, rfl⟩ := Prod.mk.inj (Option.some.inj result)
        exact ⟨_, .took worker used kept stop⟩
  | finish worker =>
      simp only [systemStep] at result
      split at result
      · obtain ⟨rfl, rfl⟩ := Prod.mk.inj (Option.some.inj result)
        exact ⟨_, .other rfl⟩
      · cases result
  | spurious worker =>
      simp only [systemStep] at result
      split_ifs at result
      obtain ⟨rfl, rfl⟩ := Prod.mk.inj (Option.some.inj result)
      exact ⟨_, .other rfl⟩
  | destroy =>
      simp only [systemStep] at result
      split_ifs at result
      obtain ⟨rfl, rfl⟩ := Prod.mk.inj (Option.some.inj result)
      exact ⟨_, .stopped⟩
  | join =>
      simp only [systemStep, joinStep] at result
      split at result
      · split_ifs at result
        · obtain ⟨rfl, rfl⟩ := Prod.mk.inj (Option.some.inj result)
          exact ⟨_, .other rfl⟩
        · obtain ⟨rfl, rfl⟩ := Prod.mk.inj (Option.some.inj result)
          exact ⟨_, .other rfl⟩
      · cases result

variable {after : Ring queueSize Task}

/-- A step keeps the pool in agreement with the ring. -/
theorem PoolStep.keeps (step : PoolStep system ring next event after)
    (keeps : system.pool.Keeps ring)
    : next.pool.Keeps after := by
  cases step with
  | accepted _ kept | took _ _ kept => exact kept
  | rejected | other => exact keeps
  | stopped => exact ⟨keeps.cells, keeps.front, keeps.back, keeps.queued⟩

/-- A step that is an operation on the queue is one of the bounded queue; any other step leaves
the waiting tasks as they are.
-/
theorem PoolStep.refines (step : PoolStep system ring next event after)
    : match queueOp event with
      | some op => BoundedQueue queueSize ring.contents op after.contents
      | none => after.contents = ring.contents := by
  cases step with
  | accepted room =>
      simp only [queueOp, Ring.contents_push]
      exact .put (by rwa [Ring.contents_length])
  | rejected full => exact .turnedAway (by rwa [Ring.contents_length])
  | took _ used =>
      simp only [queueOp, Ring.contents_pop ring used]
      exact .taken
  | stopped => rfl
  | other none =>
      rw [none]

/-- Along every run the pool keeps a ring, and the run is one of the bounded queue that ends
with the contents of the ring.
-/
theorem keeps_run {memory : Fin queueSize → Task} {history : List Event}
    (run : Run Step (System.init memory) history system)
    : ∃ ring,
        system.pool.Keeps ring
        ∧ Run (BoundedQueue queueSize) [] (history.filterMap queueOp) ring.contents := by
  refine run.invariant
    (motive := fun history system =>
      ∃ ring : Ring queueSize Task,
        system.pool.Keeps ring
        ∧ Run (BoundedQueue queueSize) [] (history.filterMap queueOp) ring.contents)
    ⟨initialRing memory, threadpoolInit_keeps memory, .nil⟩ ?_
  intro history system event next kept step
  obtain ⟨ring, keeps, earlier⟩ := kept
  obtain ⟨after, taken⟩ := poolStep_of_step keeps step
  refine ⟨after, taken.keeps keeps, ?_⟩
  have refined := taken.refines
  rw [List.filterMap_append]
  cases op : queueOp event with
  | none =>
      rw [op] at refined
      simpa [op, refined] using earlier
  | some operation =>
      rw [op] at refined
      simpa [op] using earlier.snoc refined

end LowlevelAcademy.ThreadPool
