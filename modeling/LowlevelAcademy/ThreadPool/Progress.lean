import LowlevelAcademy.Foundations.Budgets
import LowlevelAcademy.ThreadPool.Threads

/-! What is left to do in the pool: how many steps the workers and `threadpool_destroy` can
take before they rest, and that one of them can go on unless they do.
-/

namespace LowlevelAcademy.ThreadPool

open LowlevelAcademy.Foundations

/-- Whether an event is the pool's own work: that of a worker with the lock or with a task, or
that of `threadpool_destroy` behind the stop request.
-/
def Event.works : Event → Bool
  | .took _ _ | .slept _ | .exited _ | .executed _ _ | .joined _ | .destroyed => true
  | .accepted _ | .rejected _ | .woke _ | .stopped => false

/-- Whether an event is a call of `threadpool_add_task`. -/
def Event.isAdd : Event → Bool
  | .accepted _ | .rejected _ => true
  | .took _ _ | .slept _ | .exited _ | .executed _ _ | .woke _ | .stopped | .joined _
  | .destroyed => false

/-- How many steps a worker has left if it finds no more tasks. -/
def WorkerState.left : WorkerState → Nat
  | .running _ => 2
  | .contending => 1
  | .asleep | .exited => 0

/-- How many steps `threadpool_destroy` has left, once it was called. -/
def Destroyer.left : Destroyer → Nat
  | .joining next => threads - next + 1
  | .idle | .done => 0

/-- How many steps the pool has left. A stopped pool leaves its tasks where they are. -/
def System.left (system : System) : Nat :=
  (if system.pool.stop then 0 else 2 * system.pool.queued.toNat)
    + ∑ worker, (system.workers worker).left
    + system.destroyer.left

/-- What an event adds to that at most: a task and the sleepers that its signal wakes, a worker
that wakes by itself, or the joins.
-/
def Event.adds : Event → Nat
  | .accepted _ => 2 + threads
  | .woke _ => 1
  | .stopped => 2 * threads + 1
  | .rejected _ | .took _ _ | .slept _ | .exited _ | .executed _ _ | .joined _ | .destroyed => 0

variable {system next : System} {event : Event} {ring : Ring queueSize Task}

/-- What holds in every state of every run: the pool keeps a ring, no wake-up was lost, and
`threadpool_destroy` agrees with the workers.
-/
structure System.Steady (system : System) : Prop where
  keeps : ∃ ring, system.pool.Keeps ring
  awake : system.Awake
  closing : system.Closing

theorem System.Steady.step (steady : system.Steady) (step : Step system event next)
    : next.Steady := by
  obtain ⟨ring, keeps⟩ := steady.keeps
  obtain ⟨after, moved⟩ := poolStep_of_step keeps step
  have moves := threadStep_of_step step
  exact ⟨⟨after, moved.keeps keeps⟩, moves.awake steady.awake, moves.closing steady.closing⟩

theorem steady_run {memory : Fin queueSize → Task} {history : List Event}
    (run : Run Step (System.init memory) history system)
    : system.Steady := by
  obtain ⟨ring, keeps, -⟩ := keeps_run run
  exact ⟨⟨ring, keeps⟩, awake_run run, closing_run run⟩

-----------------------------------------------------------------------------------------
-- The steps that are left
-----------------------------------------------------------------------------------------

@[simp] theorem WorkerState.left_running (task : Task)
    : (WorkerState.running task).left = 2 :=
  rfl

@[simp] theorem WorkerState.left_contending : WorkerState.contending.left = 1 := rfl

@[simp] theorem WorkerState.left_asleep : WorkerState.asleep.left = 0 := rfl

@[simp] theorem WorkerState.left_exited : WorkerState.exited.left = 0 := rfl

/-- A worker that moves exchanges what it had left. -/
theorem left_update {workers : Worker → WorkerState} {worker : Worker} {before : WorkerState}
    (stands : workers worker = before) (state : WorkerState)
    : ∑ other, (Function.update workers worker state other).left + before.left
      = ∑ other, (workers other).left + state.left := by
  subst stands
  exact sum_update WorkerState.left workers worker state

/-- Waking workers adds at most a step for each. -/
theorem left_wake (woken : Worker → Bool) (workers : Worker → WorkerState)
    : ∑ worker, (wake woken workers worker).left
      ≤ ∑ worker, (workers worker).left + threads := by
  have each (worker : Worker)
      : (wake woken workers worker).left ≤ (workers worker).left + 1 := by
    rw [wake]
    split_ifs
    · simp [WorkerState.left]
    · exact Nat.le_succ _
  calc ∑ worker, (wake woken workers worker).left
      ≤ ∑ worker : Worker, ((workers worker).left + 1) :=
        Finset.sum_le_sum fun worker _ => each worker
    _ = ∑ worker, (workers worker).left + threads := by
        rw [Finset.sum_add_distrib]
        simp

/-- Where no one sleeps, waking changes nothing. -/
theorem wake_awake {woken : Worker → Bool} {workers : Worker → WorkerState}
    (awake : ∀ worker, workers worker ≠ .asleep)
    : wake woken workers = workers := by
  funext worker
  simp [wake, awake worker]

/-- How many tasks wait behind a step: one more that was accepted, one less that was taken. -/
theorem queued_of_step (keeps : system.pool.Keeps ring) (step : Step system event next)
    : 0 ≤ next.pool.queued
      ∧ match event with
        | .accepted _ => next.pool.queued = system.pool.queued + 1
        | .took _ _ => next.pool.queued + 1 = system.pool.queued
        | _ => next.pool.queued = system.pool.queued := by
  obtain ⟨after, moved⟩ := poolStep_of_step keeps step
  have counted := keeps.queued
  have counts := (moved.keeps keeps).queued
  refine ⟨by omega, ?_⟩
  cases moved with
  | accepted =>
      simp only [Ring.push] at counts
      simp only
      omega
  | took _ used =>
      simp only [Ring.pop] at counts
      simp only
      omega
  | rejected | stopped => rfl
  | other none => cases event <;> first | rfl | cases none

/-- Every step of work takes one of the steps that are left; the others add to them, and only
to those of a running pool.
-/
theorem left_of_step (steady : system.Steady) (step : Step system event next)
    : next.left + event.works.toNat
      ≤ system.left + if system.pool.stop then 0 else event.adds := by
  obtain ⟨⟨ring, keeps⟩, awake, closing⟩ := steady
  obtain ⟨remain, queued⟩ := queued_of_step keeps step
  cases threadStep_of_step step with
  | @accepted pool task woken signal stop =>
      simp only [System.left, Event.works, Event.adds, stop, Bool.toNat_false]
      cases stopped : system.pool.stop with
      | true =>
          rw [wake_awake (awake.everyone stopped)]
          simp
      | false =>
          have woke := left_wake woken system.workers
          simp only [Bool.false_eq_true, if_false] at queued ⊢
          omega
  | rejected => simp [Event.works]
  | slept contends =>
      have moves := left_update contends .asleep
      simp only [WorkerState.left_contending, WorkerState.left_asleep] at moves
      simp only [System.left, Event.works, Bool.toNat_true]
      omega
  | exited contends =>
      have moves := left_update contends .exited
      simp only [WorkerState.left_contending, WorkerState.left_exited] at moves
      simp only [System.left, Event.works, Bool.toNat_true]
      omega
  | @took pool worker task contends waiting running stop =>
      have moves := left_update contends (.running task)
      simp only [WorkerState.left_contending, WorkerState.left_running] at moves
      simp only [System.left, Event.works, Bool.toNat_true, stop, running, Bool.false_eq_true,
        if_false]
      simp only at remain queued
      omega
  | executed holds =>
      have moves := left_update holds .contending
      simp only [WorkerState.left_running, WorkerState.left_contending] at moves
      simp only [System.left, Event.works, Bool.toNat_true]
      omega
  | @woke worker sleeps =>
      have running : system.pool.stop = false := by
        by_contra stopped
        exact awake.everyone (by simpa using stopped) worker sleeps
      have moves := left_update sleeps .contending
      simp only [WorkerState.left_asleep, WorkerState.left_contending] at moves
      simp only [System.left, Event.works, Event.adds, running, Bool.toNat_false,
        Bool.false_eq_true, if_false]
      omega
  | stopped idle =>
      have running : system.pool.stop = false := by
        by_contra stopped
        exact closing.called.mp (by simpa using stopped) idle
      have woke := left_wake (fun _ => true) system.workers
      simp only [System.left, Event.works, Event.adds, threadpoolDestroy, Destroyer.left, idle,
        running, Bool.toNat_false, Bool.false_eq_true, if_false, if_true]
      omega
  | joined inside joining =>
      simp only [System.left, Event.works, Bool.toNat_true, joining, Destroyer.left]
      omega
  | destroyed joining =>
      simp only [System.left, Event.works, Bool.toNat_true, joining, Destroyer.left]
      omega

-----------------------------------------------------------------------------------------
-- The steps that are possible
-----------------------------------------------------------------------------------------

/-- A step of the pool's own work; a spurious wake-up is none. -/
def WorkStep (system : System) (event : Event) (next : System) : Prop :=
  Step system event next ∧ event.works

/-- Some step of work is possible. -/
def System.Works (system : System) : Prop := ∃ event next, WorkStep system event next

/-- A worker that contends for the lock can get it. -/
theorem System.Works.contends (keeps : system.pool.Keeps ring) {worker : Worker}
    (contends : system.workers worker = .contending)
    : system.Works := by
  have locks : systemStep system (.lock worker) = lockStep system worker := if_pos contends
  rcases keeps.worker with ⟨critical, -⟩ | ⟨critical, -⟩ | ⟨pool, critical, -⟩
  · exact ⟨.slept worker, _, ⟨.lock worker, by rw [locks, lockStep, critical]⟩, rfl⟩
  · exact ⟨.exited worker, _, ⟨.lock worker, by rw [locks, lockStep, critical]⟩, rfl⟩
  · exact ⟨.took worker _, _, ⟨.lock worker, by rw [locks, lockStep, critical]⟩, rfl⟩

/-- A worker that runs a task can finish it. -/
theorem System.Works.runs {worker : Worker} {task : Task}
    (runs : system.workers worker = .running task)
    : system.Works :=
  ⟨.executed worker task, _, ⟨.finish worker, by rw [systemStep, runs]⟩, rfl⟩

/-- The joins can go on once all workers have exited. -/
theorem System.Works.joins {number : Nat} (joining : system.destroyer = .joining number)
    (gone : ∀ worker, system.workers worker = .exited)
    : system.Works := by
  have joins : systemStep system .join = joinStep system number := by rw [systemStep, joining]
  by_cases inside : number < threads
  · exact ⟨.joined ⟨number, inside⟩, _, ⟨.join, by
      rw [joins, joinStep, dif_pos inside, if_pos (gone _)]⟩, rfl⟩
  · exact ⟨.destroyed, _, ⟨.join, by rw [joins, joinStep, dif_neg inside]⟩, rfl⟩

/-- Where no work is possible, every worker sleeps or has exited. -/
theorem System.sleeps_or_gone (keeps : system.pool.Keeps ring) (rest : ¬ system.Works)
    (worker : Worker)
    : system.workers worker = .asleep ∨ system.workers worker = .exited := by
  cases stands : system.workers worker with
  | contending => exact absurd (.contends keeps stands) rest
  | running task => exact absurd (.runs stands) rest
  | asleep => exact Or.inl rfl
  | exited => exact Or.inr rfl

/-- A pool that is not shut down and rests has nothing to do: all workers sleep, and no task
waits.
-/
theorem System.Steady.rests (steady : system.Steady) (idle : system.destroyer = .idle)
    (rest : ¬ system.Works)
    : (∀ worker, system.workers worker = .asleep) ∧ system.pool.queued = 0 := by
  obtain ⟨⟨ring, keeps⟩, awake, closing⟩ := steady
  have running : system.pool.stop = false := by
    by_contra stopped
    exact closing.called.mp (by simpa using stopped) idle
  have sleep (worker : Worker) : system.workers worker = .asleep := by
    refine (System.sleeps_or_gone keeps rest worker).resolve_right fun exited => ?_
    have stopped := closing.exits worker exited
    rw [running] at stopped
    cases stopped
  refine ⟨sleep, ?_⟩
  by_contra waiting
  obtain ⟨worker, wakes⟩ := awake.someone waiting running
  exact wakes (sleep worker)

/-- A pool that is being shut down can go on until that is done. -/
theorem System.Steady.works (steady : system.Steady) (called : system.destroyer ≠ .idle)
    (unfinished : system.destroyer ≠ .done)
    : system.Works := by
  obtain ⟨⟨ring, keeps⟩, awake, closing⟩ := steady
  by_contra rest
  have stopped := closing.called.mpr called
  have gone (worker : Worker) : system.workers worker = .exited :=
    (System.sleeps_or_gone keeps rest worker).resolve_left (awake.everyone stopped worker)
  cases stands : system.destroyer with
  | idle => exact called stands
  | joining number => exact rest (.joins stands gone)
  | done => exact unfinished stands

end LowlevelAcademy.ThreadPool
