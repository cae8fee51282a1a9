import LowlevelAcademy.ThreadPool.Threads

/-! No wake-up is lost: whatever order the threads take the lock in, whoever a signal wakes and
however often workers wake by themselves, no task waits for sleeping workers.
-/

namespace LowlevelAcademy.Correctness

open LowlevelAcademy.Foundations
open LowlevelAcademy.ThreadPool

/-- All workers wait on the condition variable and none was woken. -/
def AllAsleep (system : System) : Prop := ∀ worker, system.workers worker = .asleep

/-- In every state of every run, tasks never wait in a running pool while all workers sleep, no
worker sleeps once the stop request was broadcast, and a worker takes a task only when one is
waiting.
-/
theorem no_lost_wakeup {memory : Fin queueSize → Task} {history : List Event}
    {system : System} (run : Run Step (System.init memory) history system)
    : ¬ (0 < system.pool.queued ∧ system.pool.stop = false ∧ AllAsleep system)
      ∧ ¬ (system.pool.stop = true ∧ ∃ worker, system.workers worker = .asleep)
      ∧ ∀ worker task next,
          Step system (.took worker task) next
          → 0 < system.pool.queued ∧ system.pool.stop = false := by
  have awake := awake_run run
  refine ⟨?_, ?_, ?_⟩
  · rintro ⟨waiting, running, sleep⟩
    obtain ⟨worker, wakes⟩ := awake.someone waiting.ne' running
    exact wakes (sleep worker)
  · rintro ⟨stopped, worker, sleeps⟩
    exact awake.everyone stopped worker sleeps
  · intro worker task next step
    obtain ⟨ring, keeps, -⟩ := keeps_run run
    have counted := keeps.queued
    cases threadStep_of_step step with
    | took _ waiting running _ => exact ⟨by omega, running⟩

/-- All eight workers fall asleep before the first task is added; its signal wakes the first
worker.
-/
theorem no_lost_wakeup_first
    : ∃ history system,
        Run Step (System.init fun _ => ⟨0, 0⟩) history system
        ∧ 0 < system.pool.queued
        ∧ ¬ AllAsleep system := by
  obtain ⟨system, history, possible, queued, running⟩ : ∃ system history,
      scheduled (System.init fun _ => ⟨0, 0⟩)
          ((List.finRange threads).map .lock ++ [.add 1 2 fun worker => worker = 0])
        = some (system, history)
      ∧ system.pool.queued = 1
      ∧ system.pool.stop = false :=
    ⟨_, _, rfl, rfl, rfl⟩
  have run := run_of_scheduled possible
  have waiting : 0 < system.pool.queued := by omega
  exact ⟨history, system, run, waiting, fun sleep =>
    (no_lost_wakeup run).1 ⟨waiting, running, sleep⟩⟩

end LowlevelAcademy.Correctness
