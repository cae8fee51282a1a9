import LowlevelAcademy.Foundations.Locking

/-! Threads that count together under a lock: the mutex and the spinlock program. An increment
is two accesses, a load and a store.
-/

namespace LowlevelAcademy.Locks

open LowlevelAcademy.Foundations
open LowlevelAcademy.Foundations.Locking

/-- `THREAD_COUNT` -/
abbrev threadCount : Nat := 10

/-- Where a thread stands in its loop: `i`, and what `counter++` has loaded. -/
structure Loop where
  i : Nat
  loaded : Option Int

/-- A loop that increments the counter as often as its bound says. The counter is an `int`. -/
def counting (bound : Nat) : Section Int Loop where
  enter := ⟨0, none⟩
  access := fun counter loop =>
    match loop.loaded with
    | none => if loop.i < bound then some (counter, ⟨loop.i, some counter⟩) else none
    | some value => some (value + 1, ⟨loop.i + 1, none⟩)

/-- `thread_target` of `mutex.c` between `pthread_mutex_lock` and `pthread_mutex_unlock`. -/
def mutexTarget : Section Int Loop := counting 1000000

/-- `thread_target` of `spinlock.c` between `pthread_spin_lock` and `pthread_spin_unlock`. -/
def spinlockTarget : Section Int Loop := counting 1000000

variable {ι : Type*} {bound : Nat}

/-- In its section a thread has added `i` to the counter; what it has loaded is the counter. -/
structure Counts (bound : Nat) (before : Int) (counter : Int) (loop : Loop) : Prop where
  added : counter = before + loop.i
  within : loop.i ≤ bound
  loaded : ∀ value ∈ loop.loaded, value = counter ∧ loop.i < bound

/-- Every access keeps it so. -/
theorem Counts.access {before counter : Int} {loop : Loop} {next : Int × Loop}
    (counts : Counts bound before counter loop)
    (access : (counting bound).access counter loop = some next)
    : Counts bound before next.1 next.2 := by
  obtain ⟨i, loaded⟩ := loop
  cases loaded with
  | none =>
      simp only [counting] at access
      split_ifs at access with more
      obtain rfl := Option.some.inj access
      exact ⟨counts.added, counts.within, by rintro _ ⟨⟩; exact ⟨rfl, more⟩⟩
  | some value =>
      obtain ⟨same, more⟩ := counts.loaded value rfl
      obtain rfl := Option.some.inj access
      have added := counts.added
      refine ⟨?_, more, by simp⟩
      simp only at added ⊢
      omega

/-- Reaching a point of its section, a thread has counted so far. -/
theorem counts_of_accesses {before : Int} {reached : Int × Loop}
    (accesses
      : Relation.ReflTransGen (counting bound).Accesses (before, (counting bound).enter) reached)
    : Counts bound before reached.1 reached.2 :=
  Section.invariant ⟨by simp [counting], Nat.zero_le _, by simp [counting]⟩
    (fun counts access => counts.access access) accesses

/-- A whole section adds its bound. -/
theorem counting_effect {before after : Int} (effect : (counting bound).Effect before after)
    : after = before + bound := by
  obtain ⟨⟨i, loaded⟩, accesses, ended⟩ := effect
  have counts := counts_of_accesses accesses
  cases loaded with
  | none =>
      have whole : ¬ i < bound := by simpa [counting] using ended
      have within := counts.within
      have added := counts.added
      simp only at within added
      omega
  | some value => cases ended

/-- Sections that run one after the other add up. -/
theorem counting_serial {start counter : Int} {order : List ι}
    (run : Run (Serial fun _ => counting bound) start order counter)
    : counter = start + bound * order.length := by
  refine run.invariant (motive := fun order counter => counter = start + bound * order.length)
    (by simp) ?_
  intro order before thread after sum effect
  rw [counting_effect effect, sum, List.length_append, List.length_singleton]
  push_cast
  ring

-----------------------------------------------------------------------------------------
-- All interleavings
-----------------------------------------------------------------------------------------

variable [DecidableEq ι] {state : State ι Int Loop} {events : List (Event ι Int)}

/-- How many accesses are left in a section. -/
def accessesLeft (bound : Nat) (loop : Loop) : Nat :=
  match loop.loaded with
  | none => 2 * (bound - loop.i)
  | some _ => 2 * (bound - loop.i - 1) + 1

theorem accessesLeft_lowers {counter : Int} {loop : Loop} {next : Int × Loop}
    (access : (counting bound).access counter loop = some next)
    : accessesLeft bound next.2 < accessesLeft bound loop := by
  obtain ⟨i, loaded⟩ := loop
  cases loaded with
  | none =>
      simp only [counting] at access
      split_ifs at access with more
      obtain rfl := Option.some.inj access
      simp only [accessesLeft]
      omega
  | some value =>
      obtain rfl := Option.some.inj access
      simp only [accessesLeft]
      omega

/-- While the lock is free the counter is what the released sections have added. -/
theorem counter_free (run : Run (Step fun _ : ι => counting bound) (State.start 0) events state)
    (free : state.owner = none)
    : state.shared = bound * (released events).length := by
  have sum := counting_serial ((serialized_run run).free free)
  simpa using sum

variable [Fintype ι]

/-- At any time it is between that and what all threads add together. -/
theorem counter_between (run : Run (Step fun _ : ι => counting bound) (State.start 0) events state)
    : (bound * (released events).length : Int) ≤ state.shared
      ∧ state.shared ≤ bound * Fintype.card ι := by
  have serialized := serialized_run run
  cases owner : state.owner with
  | none =>
      have few := serialized.nodup.length_le_card
      rw [counter_free run owner]
      exact ⟨le_refl _, by exact_mod_cast Nat.mul_le_mul_left bound few⟩
  | some holder =>
      obtain ⟨before, memory, earlier, inside, accesses⟩ := serialized.taken holder owner
      have counts := counts_of_accesses accesses
      have added := counts.added
      have within := counts.within
      have sum := counting_serial earlier
      have fresh : holder ∉ released events := by
        rw [serialized.behind, inside]
        simp
      have few := (List.nodup_cons.mpr ⟨fresh, serialized.nodup⟩).length_le_card
      rw [List.length_cons] at few
      have whole := Nat.mul_le_mul_left bound few
      rw [Nat.mul_succ] at whole
      constructor
      · omega
      · have sum' : (bound * (released events).length + bound : Int) ≤ bound * Fintype.card ι := by
          exact_mod_cast whole
        omega

/-- Once all threads have finished, the counter has every increment. -/
theorem counter_finished
    (run : Run (Step fun _ : ι => counting bound) (State.start 0) events state)
    (finished : ∀ thread, state.phases thread = .finished)
    : state.shared = bound * Fintype.card ι := by
  have serialized := serialized_run run
  have free : state.owner = none := by
    cases owner : state.owner with
    | none => rfl
    | some holder =>
        obtain ⟨before, memory, -, inside, -⟩ := serialized.taken holder owner
        cases (finished holder).symm.trans inside
  have all : ∀ thread, thread ∈ released events := fun thread =>
    (serialized.behind thread).mpr (Or.inr (finished thread))
  have number : (released events).length = Fintype.card ι := by
    rw [← List.toFinset_card_of_nodup serialized.nodup, ← Finset.card_univ]
    congr 1
    ext thread
    simp [all thread]
  rw [counter_free run free, number]

/-- What a thread sees behind its section: at least what was added by those before it and by
itself, and at most what all add.
-/
theorem counter_seen {before after : List (Event ι Int)} {thread : ι} {seen : Int}
    (run
      : Run (Step fun _ : ι => counting bound) (State.start 0)
          (before ++ .reads thread seen :: after) state)
    : thread ∈ released before
      ∧ (bound * (released before).length : Int) ≤ seen
      ∧ seen ≤ bound * Fintype.card ι := by
  obtain ⟨reached, next, earlier, step, -⟩ := run.passes
  have between := counter_between earlier
  cases step with
  | reads behind => exact ⟨((serialized_run earlier).behind thread).mpr (Or.inl behind), between⟩

/-- From any point of a run all threads can be brought to their end. By the number of steps that
they have left.
-/
theorem completion (run : Run (Step fun _ : ι => counting bound) (State.start 0) events state)
    : ∃ more done,
        Run (Step fun _ : ι => counting bound) (State.start 0) (events ++ more) done
        ∧ ∀ thread, done.phases thread = .finished := by
  have advance (history : List (Event ι Int)) (reached : State ι Int Loop)
      (earlier : Run (Step fun _ : ι => counting bound) (State.start 0) history reached)
      (waits : ¬ ∀ thread, reached.phases thread = .finished)
      : ∃ event next,
          Step (fun _ : ι => counting bound) reached event next
          ∧ Run (Step fun _ : ι => counting bound) (State.start 0) (history ++ [event]) next
          ∧ State.left (fun _ : ι => counting bound) (accessesLeft bound) next
            < State.left (fun _ : ι => counting bound) (accessesLeft bound) reached := by
    obtain ⟨thread, unfinished⟩ := not_forall.mp waits
    obtain ⟨event, next, step, advances⟩ := (serialized_run earlier).advances unfinished
    have fewer := step.left (fun _ _ _ _ access => accessesLeft_lowers access)
    rw [advances] at fewer
    exact ⟨event, next, step, earlier.snoc step, fewer⟩
  obtain ⟨more, done, -, whole, finished⟩ := Run.reach _ advance run
  exact ⟨more, done, whole, finished⟩

-----------------------------------------------------------------------------------------
-- The two programs
-----------------------------------------------------------------------------------------

/-- The mutex program, in every interleaving of its loads and stores: no increment is lost, so
the counter is a million for each thread that has unlocked whenever the mutex is free, and ten
millions, which an `int` can hold, once all threads have finished. What a thread prints without
the mutex counts its own section and those before it.
-/
theorem mutex_counts {events : List (Event (Fin threadCount) Int)}
    {state : State (Fin threadCount) Int Loop}
    (run : Run (Step fun _ : Fin threadCount => mutexTarget) (State.start 0) events state)
    : (state.owner = none → state.shared = 1000000 * (released events).length)
      ∧ ((∀ thread, state.phases thread = .finished) → state.shared = 10000000)
      ∧ (0 ≤ state.shared ∧ state.shared ≤ 10000000)
      ∧ ∀ before thread seen after,
          events = before ++ .reads thread seen :: after
          → thread ∈ released before
            ∧ 1000000 * ((released before).length : Int) ≤ seen
            ∧ seen ≤ 10000000 := by
  have between := counter_between run
  have all : ((1000000 : Nat) : Int) * Fintype.card (Fin threadCount) = 10000000 := by simp
  rw [all] at between
  refine ⟨fun free => counter_free run free, fun finished => ?_, ⟨by omega, between.2⟩, ?_⟩
  · rw [counter_finished run finished, all]
  · rintro before thread seen after rfl
    have sees := counter_seen run
    rwa [all] at sees

/-- A whole run of the mutex program. -/
theorem mutex_counts_whole
    : ∃ (events : List (Event (Fin threadCount) Int)) (state : State (Fin threadCount) Int Loop),
        Run (Step fun _ => mutexTarget) (State.start 0) events state
        ∧ (∀ thread, state.phases thread = .finished)
        ∧ state.shared = 10000000 := by
  have begun : Run (Step fun _ : Fin threadCount => counting 1000000) (State.start 0) []
      (State.start 0) := .nil
  obtain ⟨more, done, run, finished⟩ := completion begun
  exact ⟨_, done, run, finished, (mutex_counts run).2.1 finished⟩

/-- The spinlock program cannot lock up: while a thread is not finished some thread can go on
other than by spinning, all threads together go on at most 20000030 times, and from every point
the run can be continued to the end, where the counter is ten millions.
-/
theorem spinlock_finishes {events : List (Event (Fin threadCount) Int)}
    {state : State (Fin threadCount) Int Loop}
    (run : Run (Step fun _ : Fin threadCount => spinlockTarget) (State.start 0) events state)
    : (∀ thread,
        state.phases thread ≠ .finished
        → ∃ event next,
            Step (fun _ => spinlockTarget) state event next ∧ event.advances)
      ∧ events.countP (·.advances) ≤ 20000030
      ∧ ∃ more done,
          Run (Step fun _ : Fin threadCount => spinlockTarget) (State.start 0) (events ++ more) done
          ∧ (∀ thread, done.phases thread = .finished)
          ∧ done.shared = 10000000 := by
  refine ⟨fun thread waits => (serialized_run run).advances waits, ?_, ?_⟩
  · have bounded := advances_le (fun _ _ _ _ access => accessesLeft_lowers access) run
    have total : State.left (fun _ : Fin threadCount => counting 1000000) (accessesLeft 1000000)
        (State.start 0) = 20000030 := by
      simp [State.left, State.start, Phase.stepsLeft, accessesLeft, counting, threadCount]
    rw [total] at bounded
    exact (Nat.le_add_left _ _).trans bounded
  · obtain ⟨more, done, whole, finished⟩ := completion run
    refine ⟨more, done, whole, finished, ?_⟩
    rw [counter_finished whole finished]
    simp

/-- One thread spins while another has the lock; the program still comes to its end. -/
theorem spinlock_finishes_spinning
    : ∃ (more : List (Event (Fin threadCount) Int)) (done : State (Fin threadCount) Int Loop),
        Run (Step fun _ => spinlockTarget) (State.start 0) ([.acquires 0] ++ [.spins 1] ++ more)
          done
        ∧ done.shared = 10000000 := by
  let locked : State (Fin threadCount) Int Loop :=
    ⟨0, some 0, State.put (State.start 0) 0 (.inside spinlockTarget.enter)⟩
  have acquires : Step (fun _ : Fin threadCount => spinlockTarget) (State.start 0) (.acquires 0)
      locked :=
    .acquires rfl rfl
  have spins : Step (fun _ : Fin threadCount => spinlockTarget) locked (.spins 1) locked :=
    .spins (by simp [locked]) rfl
  have spinning := (Run.single acquires).snoc spins
  obtain ⟨-, -, more, done, run, -, counted⟩ := spinlock_finishes spinning
  exact ⟨more, done, run, counted⟩

end LowlevelAcademy.Locks
