import LowlevelAcademy.ThreadPool.Refinement

/-! The thread pool's queue over whole runs: whatever order the threads take the lock in, it is
a first-in first-out queue with room for `QUEUE_SIZE` tasks.
-/

namespace LowlevelAcademy.Correctness

open LowlevelAcademy.Foundations
open LowlevelAcademy.ThreadPool

/-- The tasks that `threadpool_add_task` put into the queue, in order. -/
def acceptedTasks (history : List Event) : List Task :=
  history.filterMap fun
    | .accepted task => some task
    | _ => none

/-- The tasks that workers took, in order. -/
def takenTasks (history : List Event) : List Task :=
  history.filterMap fun
    | .took _ task => some task
    | _ => none

/-- The indices and the counter of a pool with these waiting tasks: all within their ranges,
`queue_back` behind the waiting tasks, and the tasks in the cells from `queue_front` on.
-/
structure QueueHolds (pool : Threadpool) (waiting : List Task) : Prop where
  queued : 0 ≤ pool.queued ∧ pool.queued ≤ queueSize ∧ pool.queued = waiting.length
  front : 0 ≤ pool.queueFront ∧ pool.queueFront < queueSize
  back : 0 ≤ pool.queueBack ∧ pool.queueBack < queueSize
  order : pool.queueBack = (pool.queueFront + pool.queued) % queueSize
  cells
    : ∀ i < waiting.length, pool.task ((pool.queueFront + i) % queueSize) = waiting[i]?

/-- What can happen next to a queue with these waiting tasks: a task is turned away only when
the queue is full, and then nothing changes; a worker takes the first task; an add is accepted
exactly when there is room, and no worker with the lock gets stuck.
-/
structure QueueMoves (system : System) (waiting : List Task) : Prop where
  turnedAway
    : ∀ task next,
        Step system (.rejected task) next → waiting.length = queueSize ∧ next = system
  first : ∀ worker task next, Step system (.took worker task) next → waiting.head? = some task
  adds
    : ∀ function arg woken,
        system.destroyer ≠ .done
        → SignalWakes system.workers woken
        → ∃ next,
            systemStep system (.add function arg woken)
              = some (next,
                if waiting.length < queueSize then .accepted ⟨function, arg⟩
                else .rejected ⟨function, arg⟩)
  locks
    : ∀ worker,
        system.workers worker = .contending
        → ∃ outcome, systemStep system (.lock worker) = some outcome

variable {pool : Threadpool} {ring : Ring queueSize Task} {system : System}

/-- A pool that keeps a ring holds the contents of the ring. -/
theorem queueHolds_of_keeps (keeps : pool.Keeps ring) : QueueHolds pool ring.contents := by
  have bound := ring.bound
  have front := ring.front.isLt
  have back := ring.back.isLt
  refine ⟨?_, ?_, ?_, ?_, fun i inside => ?_⟩
  · rw [keeps.queued, Ring.contents_length]
    omega
  · rw [keeps.front]
    omega
  · rw [keeps.back]
    omega
  · rw [keeps.back, keeps.front, keeps.queued, Ring.back, Ring.wrap]
    push_cast
    rfl
  · rw [Ring.contents_length] at inside
    have place : (pool.queueFront + i) % queueSize = (Ring.wrap ring.front i).val := by
      rw [keeps.front, Ring.wrap]
      push_cast
      rfl
    rw [place, pool.task_cell, keeps.cells, Ring.contents_getElem? _ inside]

/-- The next steps of a system whose pool keeps a ring. -/
theorem queueMoves_of_keeps (keeps : system.pool.Keeps ring)
    : QueueMoves system ring.contents := by
  refine ⟨?_, ?_, ?_, ?_⟩
  · intro task next step
    obtain ⟨after, moved⟩ := poolStep_of_step keeps step
    cases moved with
    | rejected full => exact ⟨by rw [Ring.contents_length, full], rfl⟩
    | other none => cases none
  · intro worker task next step
    obtain ⟨after, moved⟩ := poolStep_of_step keeps step
    cases moved with
    | took _ used => rw [Ring.contents_pop _ used, List.head?_cons]
    | other none => cases none
  · intro function arg woken alive signal
    simp only [systemStep, if_pos (And.intro alive signal), addStep, Ring.contents_length]
    rcases Nat.lt_or_eq_of_le ring.bound with room | full
    · obtain ⟨pool, added, -⟩ := keeps.add function arg room
      exact ⟨_, by rw [added, if_pos room]⟩
    · exact ⟨_, by rw [keeps.add_full function arg full, if_neg (by omega)]⟩
  · intro worker contends
    simp only [systemStep, if_pos contends, lockStep]
    rcases keeps.worker with ⟨outcome, -⟩ | ⟨outcome, -⟩ | ⟨pool, outcome, -⟩
    all_goals
      rw [outcome]
      exact ⟨_, rfl⟩

/-- The accepted and the taken tasks are what the bounded queue was given and gave back. -/
private theorem tasks_of_ops (history : List Event)
    : putsOf (history.filterMap queueOp) = acceptedTasks history
      ∧ takenOf (history.filterMap queueOp) = takenTasks history := by
  simp only [putsOf, takenOf, acceptedTasks, takenTasks, List.filterMap_filterMap]
  constructor
  · congr 1
    funext event
    cases event <;> rfl
  · congr 1
    funext event
    cases event <;> rfl

/-- Along every run the pool keeps a ring with the accepted tasks that were not taken. -/
theorem waiting_of_run {memory : Fin queueSize → Task} {history : List Event}
    (run : Run Step (System.init memory) history system)
    : ∃ ring,
        system.pool.Keeps ring
        ∧ Run (BoundedQueue queueSize) [] (history.filterMap queueOp) ring.contents
        ∧ acceptedTasks history = takenTasks history ++ ring.contents := by
  obtain ⟨ring, keeps, refined⟩ := keeps_run run
  obtain ⟨order, -⟩ := BoundedQueue.run refined
  obtain ⟨puts, taken⟩ := tasks_of_ops history
  rw [puts, taken] at order
  exact ⟨ring, keeps, refined, order⟩

/-- In every run of the pool from any initial memory, its operations are those of a bounded
first-in first-out queue. The waiting tasks lie in the cells from `queue_front` on; the
accepted tasks are the taken ones and then the waiting ones, in order, so each accepted task
is taken at most once and as it was added.
-/
theorem task_queue_is_fifo {memory : Fin queueSize → Task} {history : List Event}
    (run : Run Step (System.init memory) history system)
    : ∃ waiting,
        Run (BoundedQueue queueSize) [] (history.filterMap queueOp) waiting
        ∧ QueueHolds system.pool waiting
        ∧ acceptedTasks history = takenTasks history ++ waiting
        ∧ QueueMoves system waiting := by
  obtain ⟨ring, keeps, refined, order⟩ := waiting_of_run run
  exact ⟨ring.contents, refined, queueHolds_of_keeps keeps, order, queueMoves_of_keeps keeps⟩

/-- The task whose two words are this number, and the call that adds it. -/
def numbered (n : Nat) : Task := ⟨.ofNat n, .ofNat n⟩

def addNumbered (n : Nat) : Choice := .add (.ofNat n) (.ofNat n) fun _ => false

/-- One task more is added than the queue has room for. Then two workers take three tasks, and
the next task that is added goes into the first cell again.
-/
def fillAndWrap : List Choice :=
  (List.range (queueSize + 1)).map addNumbered
    ++ [.lock 0, .lock 3, .finish 0, addNumbered 200, .lock 0]

/-- The tasks are taken in the order in which they were added, without the one that was turned
away.
-/
theorem task_queue_is_fifo_wraps
    : ∃ history system,
        Run Step (System.init fun _ => ⟨0, 0⟩) history system
        ∧ Event.rejected (numbered queueSize) ∈ history
        ∧ takenTasks history = [numbered 0, numbered 1, numbered 2]
        ∧ QueueHolds system.pool
          (((List.range queueSize).map numbered).drop 3 ++ [numbered 200]) := by
  have facts : (scheduled (System.init fun _ => ⟨0, 0⟩) fillAndWrap).map
        (fun (_, history) =>
          (acceptedTasks history, takenTasks history,
            decide (.rejected (numbered queueSize) ∈ history)))
      = some ((List.range queueSize).map numbered ++ [numbered 200],
          [numbered 0, numbered 1, numbered 2], true) := by
    decide +kernel
  obtain ⟨⟨system, history⟩, possible, same⟩ := Option.map_eq_some_iff.mp facts
  obtain ⟨accepted, rest⟩ := Prod.mk.inj same
  obtain ⟨taken, turnedAway⟩ := Prod.mk.inj rest
  have run := run_of_scheduled possible
  obtain ⟨waiting, -, holds, order, -⟩ := task_queue_is_fifo run
  have contents : waiting = ((List.range queueSize).map numbered).drop 3 ++ [numbered 200] := by
    rw [accepted, taken] at order
    exact List.append_cancel_left order.symm
  exact ⟨history, system, run, of_decide_eq_true turnedAway, taken, contents ▸ holds⟩

end LowlevelAcademy.Correctness
