import Mathlib

/-! The thread pool and its critical sections: adding a task, what a worker does when it holds
the lock, and the stop request.
-/

namespace LowlevelAcademy.ThreadPool

/-- `THREADS` -/
abbrev threads : Nat := 8

/-- `QUEUE_SIZE` -/
abbrev queueSize : Nat := 100

/-- A pointer to a function or to its argument; the pool never looks behind it. -/
abbrev Pointer := UInt64

/-- `task_t` -/
structure Task where
  fn : Pointer
  arg : Pointer
  deriving DecidableEq

/-- `threadpool_t`, without the lock, the condition variable and the thread handles. The
indices and the counter are `int`s.
-/
structure Threadpool where
  taskQueue : Fin queueSize → Task
  queued : Int
  queueFront : Int
  queueBack : Int
  stop : Bool

/-- `task_queue[i]`; there is no task outside the array. -/
def Threadpool.task (pool : Threadpool) (i : Int) : Option Task :=
  if inside : 0 ≤ i ∧ i < queueSize then some (pool.taskQueue ⟨i.toNat, by omega⟩) else none

/-- `task_queue[i] = task`; there is no result outside the array. -/
def Threadpool.setTask (pool : Threadpool) (i : Int) (task : Task) : Option Threadpool :=
  if inside : 0 ≤ i ∧ i < queueSize then
    some { pool with taskQueue := Function.update pool.taskQueue ⟨i.toNat, by omega⟩ task }
  else none

/-- `threadpool_init` before it creates the threads. The cells of the queue are not set. -/
def threadpoolInit (memory : Fin queueSize → Task) : Threadpool where
  taskQueue := memory
  queued := 0
  queueFront := 0
  queueBack := 0
  stop := false

/-- `threadpool_add_task` while it holds the lock, and whether it signals: it does when it put
the task into the queue. The remainder is that of C, with the sign of the dividend.
-/
def threadpoolAddTask (pool : Threadpool) (function arg : Pointer)
    : Option (Threadpool × Bool) :=
  let nextRear := (pool.queueBack + 1).tmod queueSize
  if pool.queued < queueSize then
    match pool.setTask pool.queueBack ⟨function, arg⟩ with
    | none => none
    | some stored =>
        some ({ stored with queueBack := nextRear, queued := stored.queued + 1 }, true)
  else some (pool, false)

/-- How a worker leaves its critical section: it sleeps on the condition variable, exits, or
has taken a task.
-/
inductive Decision where
  | wait
  | exit
  | run (task : Task)
  deriving DecidableEq

/-- `thread_function` while it holds the lock, at the top of its loop as well as after
`pthread_cond_wait`, which leads to the same test.
-/
def threadFunction (pool : Threadpool) : Option (Threadpool × Decision) :=
  if pool.queued = 0 ∧ !pool.stop then some (pool, .wait)
  else if pool.stop then some (pool, .exit)
  else
    match pool.task pool.queueFront with
    | none => none
    | some task =>
        some ({ pool with
          queueFront := (pool.queueFront + 1).tmod queueSize
          queued := pool.queued - 1 }, .run task)

/-- `threadpool_destroy` while it holds the lock; it then wakes all sleepers. -/
def threadpoolDestroy (pool : Threadpool) : Threadpool := { pool with stop := true }

end LowlevelAcademy.ThreadPool
