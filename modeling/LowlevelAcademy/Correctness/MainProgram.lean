import LowlevelAcademy.Correctness.Draining
import LowlevelAcademy.ThreadPool.MainRuns

/-! The whole thread pool program: whatever order `main` and the workers go on in, wherever
`malloc` allocates and whenever `main` shuts the pool down, no task touches a number that is
not its own, and each number is printed or left allocated, once.
-/

namespace LowlevelAcademy.Correctness

open LowlevelAcademy.Foundations
open LowlevelAcademy.ThreadPool

variable {exampleTask : Pointer} {memory : Fin queueSize → Task} {history : List ProgramEvent}
  {program : ThreadPool.Program}

/-- The numbers from one to another, as they are printed. -/
def numbersUpTo (count : Nat) : List Int := (List.range count).map fun n : Nat => (n : Int)

/-- Where no worker has a task, what was printed are the numbers of the tasks that were taken. -/
theorem printed_of_idle {heap : Pointer → Option Int} {held : Worker → Option Task}
    {printed : Worker → Bool} {first : Nat} {numbers : List Int}
    (prints : Prints heap held printed first numbers) (idle : ∀ worker, held worker = none)
    : numbers.Perm (numbersUpTo first) := by
  refine (List.perm_ext_iff_of_nodup prints.once ?_).mpr fun num => ?_
  · exact List.nodup_range.map Nat.cast_injective
  · rw [prints.which num, numbersUpTo, List.mem_map]
    constructor
    · rintro ⟨⟨n, before, rfl⟩, -⟩
      exact ⟨n, List.mem_range.mpr before, rfl⟩
    · rintro ⟨n, before, rfl⟩
      refine ⟨⟨n, List.mem_range.mp before, rfl⟩, fun worker task holds => ?_⟩
      cases (idle worker).symm.trans holds

/-- Where no worker has a task, the numbers that are allocated are those of the waiting ones. -/
theorem leaked_of_idle {heap : Pointer → Option Int} {held : Worker → Option Task}
    {waiting : List Task} {first : Nat}
    (owns : Owns exampleTask heap held waiting first none) (idle : ∀ worker, held worker = none)
    : (waiting.map (·.arg)).Nodup
      ∧ (∀ pointer, heap pointer ≠ none ↔ pointer ∈ waiting.map (·.arg))
      ∧ (waiting.map (·.arg)).map heap
        = (List.range' first waiting.length).map fun n : Nat => some (n : Int) := by
  have values : (waiting.map (·.arg)).map heap
      = (List.range' first waiting.length).map fun n : Nat => some (n : Int) := by
    refine List.ext_getElem (by simp) fun k inside _ => ?_
    rw [List.length_map, List.length_map] at inside
    simpa using owns.waits k inside
  refine ⟨?_, fun pointer => ⟨fun used => ?_, fun member => ?_⟩, values⟩
  · refine List.Nodup.of_map heap ?_
    rw [values]
    refine List.Nodup.map (fun one other same => ?_) List.nodup_range'
    exact_mod_cast Option.some.inj same
  · obtain ⟨task, live, rfl⟩ := (owns.owned pointer used).resolve_right (by simp)
    rcases live with waits | ⟨worker, holds⟩
    · exact List.mem_map_of_mem waits
    · cases (idle worker).symm.trans holds
  · obtain ⟨task, waits, rfl⟩ := List.mem_map.mp member
    exact owns.allocated (Or.inl waits)

/-- In every run of the program no task is turned away, every task that a worker calls is
`example_task`, and it neither reads nor frees a number that is not allocated. No number is
printed twice, and what is printed is one of the numbers that `main` has added.
-/
theorem tasks_own_numbers
    (run : Run (ProgramStep exampleTask) (ThreadPool.Program.init memory) history program)
    : (∀ worker, .invalid worker ∉ history)
      ∧ (∀ task, .pool (.rejected task) ∉ history)
      ∧ (printedNumbers history).Nodup
      ∧ ∀ num ∈ printedNumbers history, 0 ≤ num ∧ num < program.main.added := by
  have sound := sound_run run
  obtain ⟨ring, first, -, -, prints, counted⟩ := sound.holds
  refine ⟨fun worker member => ?_, fun task member => ?_, prints.once, fun num member => ?_⟩
  · exact (sound.clean _ member).1 worker rfl
  · exact (sound.clean _ member).2 task rfl
  · obtain ⟨⟨n, before, rfl⟩, -⟩ := (prints.which num).mp member
    constructor
    · exact Int.natCast_nonneg n
    · omega

/-- When all tasks are added and all workers sleep, every number was printed. -/
theorem all_printed (sound : Sound exampleTask memory history program)
    (main : program.main = .looping 100) (sleep : AllAsleep program.system)
    : (printedNumbers history).Perm (numbersUpTo 100) ∧ ∀ pointer, program.heap pointer = none := by
  obtain ⟨ring, first, keeps, owns, prints, counted⟩ := sound.holds
  have idle (worker : Worker) : held program.system worker = none := by
    rw [held, sleep worker, running]
  have steady := steady_run sound.pool
  have running : program.system.pool.stop = false := by
    by_contra stopped
    exact steady.awake.everyone (by simpa using stopped) 0 (sleep 0)
  have empty : ring.contents = [] := by
    by_contra waiting
    have queued : program.system.pool.queued ≠ 0 := by
      rw [keeps.queued, ← Ring.contents_length]
      exact_mod_cast fun none => waiting (List.length_eq_zero_iff.mp none)
    obtain ⟨worker, wakes⟩ := steady.awake.someone queued running
    exact wakes (sleep worker)
  rw [main, empty] at owns counted
  obtain rfl : first = 100 := counted
  refine ⟨printed_of_idle prints idle, fun pointer => ?_⟩
  by_contra used
  simpa using ((leaked_of_idle owns idle).2.1 pointer).mp used

/-- When `threadpool_destroy` has returned, the numbers up to some count were printed, and the
others are still allocated.
-/
theorem printed_at_end (sound : Sound exampleTask memory history program)
    (done : program.system.destroyer = .done)
    : ∃ (count : Nat) (leaked : List Pointer),
        count ≤ 100
        ∧ (printedNumbers history).Perm (numbersUpTo count)
        ∧ leaked.Nodup
        ∧ (∀ pointer, program.heap pointer ≠ none ↔ pointer ∈ leaked)
        ∧ leaked.map program.heap
          = (List.range' count (100 - count)).map fun n : Nat => some (n : Int) := by
  obtain ⟨ring, first, keeps, owns, prints, counted⟩ := sound.holds
  have exited := (closing_run sound.pool).done done
  have idle (worker : Worker) : held program.system worker = none := by
    rw [held, exited worker, running]
  have main := sound.called.mp (by simp [done])
  rw [main] at owns counted
  obtain ⟨distinct, leaks, values⟩ := leaked_of_idle owns idle
  simp only [MainState.added] at counted
  have rest : ring.contents.length = 100 - first := by omega
  rw [rest] at values
  exact ⟨first, _, by omega, printed_of_idle prints idle, distinct, leaks, values⟩

/-- The first number is allocated, added and printed. -/
theorem tasks_own_numbers_first
    : ∃ history program,
        Run (ProgramStep 4096) (ThreadPool.Program.init fun _ => ⟨0, 0⟩) history program
        ∧ printedNumbers history = [0]
        ∧ (printedNumbers history).Nodup := by
  have run : Run (ProgramStep 4096) (ThreadPool.Program.init fun _ => ⟨0, 0⟩)
      ([] ++ [.allocated 64] ++ [.pool (.accepted ⟨4096, 64⟩)] ++ [.pool (.took 5 ⟨4096, 64⟩)]
        ++ [.printed 5 0]) _ :=
    (((Run.nil.snoc ⟨.malloc 64, rfl⟩).snoc ⟨.add fun _ => false, rfl⟩).snoc
      ⟨.lock 5, rfl⟩).snoc ⟨.print 5, rfl⟩
  exact ⟨_, _, run, rfl, (tasks_own_numbers run).2.2.1⟩

-----------------------------------------------------------------------------------------
-- Coming to the end
-----------------------------------------------------------------------------------------

/-- How many steps of work a program has left at most: printing comes on top of the pool's. -/
def stepsLeft (program : ThreadPool.Program) : Nat :=
  2 * program.system.left + ∑ worker, (!program.printed worker).toNat

/-- A pool that can work belongs to a program that can. -/
theorem program_works (sound : Sound exampleTask memory history program)
    (works : program.system.Works)
    : ∃ entry after,
        ProgramStep exampleTask program entry after
        ∧ after.main = program.main
        ∧ stepsLeft after < stepsLeft program := by
  obtain ⟨event, next, ⟨choice, made⟩, works⟩ := works
  have steady := steady_run sound.pool
  have fewer := left_of_work steady ⟨⟨choice, made⟩, works⟩
  have makes := makes_of_step made
  cases choice with
  | add => rcases makes with rfl | rfl <;> cases works
  | spurious worker =>
      obtain rfl : event = .woke worker := makes
      cases works
  | destroy =>
      obtain rfl : event = .stopped := makes
      cases works
  | lock worker =>
      refine ⟨.pool event, { program with system := next }, ⟨.lock worker, ?_⟩, rfl, ?_⟩
      · simp only [programStep, Program.onPool, made]
      · simp only [stepsLeft]
        omega
  | join =>
      refine ⟨.pool event, { program with system := next }, ⟨.join, ?_⟩, rfl, ?_⟩
      · simp only [programStep, Program.onPool, made]
      · simp only [stepsLeft]
        omega
  | finish worker =>
      obtain ⟨task, rfl⟩ := makes
      have runs : program.system.workers worker = .running task := by
        cases threadStep_of_step ⟨_, made⟩ with
        | executed holds => exact holds
      cases spoke : program.printed worker with
      | true =>
          have silent := sum_update (fun spoke => (!spoke).toNat) program.printed worker false
          obtain ⟨n, number⟩ := sound.holds.number runs
          refine ⟨.pool (.executed worker task), {
            program with
            system := next
            heap := Function.update program.heap task.arg none
            printed := Function.update program.printed worker false
          }, ⟨.free worker, ?_⟩, rfl, ?_⟩
          · simp only [programStep, runs, spoke, exampleTaskFrees, number, Program.onPool, made]
          · simp only [spoke, Bool.not_true, Bool.not_false, Bool.toNat_true, Bool.toNat_false]
              at silent
            simp only [stepsLeft]
            omega
      | false =>
          have speaks := sum_update (fun spoke => (!spoke).toNat) program.printed worker true
          obtain ⟨num, prints, -⟩ := sound.holds.print runs spoke
          refine ⟨.printed worker num, {
            program with
            printed := Function.update program.printed worker true
          }, ⟨.print worker, ?_⟩, rfl, ?_⟩
          · simp only [programStep, runs, spoke, prints]
          · simp only [spoke, Bool.not_true, Bool.not_false, Bool.toNat_true, Bool.toNat_false]
              at speaks
            simp only [stepsLeft]
            omega

/-- It can work until the pool rests, with `main` where it is. -/
theorem program_rests (sound : Sound exampleTask memory history program)
    : ∃ more ended,
        Run (ProgramStep exampleTask) program more ended
        ∧ Sound exampleTask memory (history ++ more) ended
        ∧ ended.main = program.main
        ∧ ¬ ended.system.Works := by
  obtain ⟨more, ended, run, ⟨kept, main⟩, rests⟩
      : ∃ more ended,
          Run (ProgramStep exampleTask) program more ended
          ∧ (Sound exampleTask memory (history ++ more) ended ∧ ended.main = program.main)
          ∧ ¬ ended.system.Works :=
    Run.reach
      (motive := fun events ended =>
        Sound exampleTask memory events ended ∧ ended.main = program.main)
      stepsLeft
      (fun events state kept works => by
        obtain ⟨entry, after, step, same, fewer⟩ := program_works kept.1 (not_not.mp works)
        exact ⟨entry, after, step, ⟨kept.1.step step, same.trans kept.2⟩, fewer⟩)
      ⟨sound, rfl⟩
  exact ⟨more, ended, run, kept, main, rests⟩

/-- There is always room for the next number: all that is allocated has one of at most 109
owners.
-/
theorem malloc_possible (sound : Sound exampleTask memory history program)
    : ∃ taskNum, taskNum ≠ 0 ∧ program.heap taskNum = none := by
  obtain ⟨ring, first, -, owns, -, counted⟩ := sound.holds
  let owners : List Pointer :=
    0 :: (ring.contents.map (·.arg)
      ++ (List.finRange threads).filterMap (fun worker => (held program.system worker).map (·.arg))
      ++ program.main.mine.toList)
  have few : owners.toFinset.card < (Finset.univ : Finset Pointer).card := by
    have waiting := sound.bound
    have working := List.length_filterMap_le
      (fun worker => (held program.system worker).map (·.arg)) (List.finRange threads)
    have own : program.main.mine.toList.length ≤ 1 := by
      cases program.main.mine <;> simp
    have eight : threads = 8 := rfl
    rw [List.length_finRange] at working
    calc owners.toFinset.card ≤ owners.length := List.toFinset_card_le owners
      _ < 2 ^ 64 := by
        simp only [owners, List.length_cons, List.length_append, List.length_map]
        omega
      _ = (Finset.univ : Finset Pointer).card := by
        rw [Finset.card_univ, ← FinEnum.card_eq_fintypeCard]
        rfl
  obtain ⟨taskNum, -, fresh⟩ := Finset.exists_mem_notMem_of_card_lt_card few
  rw [List.mem_toFinset, List.mem_cons, not_or] at fresh
  refine ⟨taskNum, fresh.1, ?_⟩
  by_contra used
  refine fresh.2 ?_
  rw [List.mem_append, List.mem_append]
  rcases owns.owned taskNum used with ⟨task, waits | ⟨worker, holds⟩, rfl⟩ | own
  · exact Or.inl (Or.inl (List.mem_map_of_mem waits))
  · exact Or.inl (Or.inr (List.mem_filterMap.mpr ⟨worker, List.mem_finRange _, by simp [holds]⟩))
  · exact Or.inr (by simp [own])

/-- How far `main` is from the end of its loop. -/
def loopLeft (program : ThreadPool.Program) : Nat :=
  2 * (100 - program.main.added) + 1 - program.main.mine.toList.length

/-- `main` can go on to the end of its loop by itself. -/
theorem main_adds (sound : Sound exampleTask memory history program)
    (before : program.main ≠ .destroying)
    : ∃ more ended,
        Run (ProgramStep exampleTask) program more ended
        ∧ Sound exampleTask memory (history ++ more) ended
        ∧ ended.main = .looping 100 := by
  obtain ⟨more, ended, run, ⟨kept, -⟩, all⟩
      : ∃ more ended,
          Run (ProgramStep exampleTask) program more ended
          ∧ (Sound exampleTask memory (history ++ more) ended ∧ ended.main ≠ .destroying)
          ∧ ended.main = .looping 100 :=
    Run.reach
      (motive := fun events ended =>
        Sound exampleTask memory events ended ∧ ended.main ≠ .destroying)
      loopLeft
      (fun events state kept goes => by
        obtain ⟨sound, before⟩ := kept
        have bound := sound.bound
        cases main : state.main with
        | destroying => exact absurd main before
        | looping i =>
            rw [main] at bound goes
            have more : i < 100 := lt_of_le_of_ne bound fun all => goes (by rw [all])
            obtain ⟨taskNum, real, free⟩ := malloc_possible sound
            have step : ProgramStep exampleTask state (.allocated taskNum) {
                state with
                main := .allocated i taskNum
                heap := Function.update state.heap taskNum (some i)
              } :=
              ⟨.malloc taskNum, by simp only [programStep, main, if_pos (And.intro more
                (And.intro real free))]⟩
            refine ⟨_, _, step, ⟨sound.step step, by simp⟩, ?_⟩
            simp only [loopLeft, main, MainState.added, MainState.mine, Option.toList]
            simp
        | allocated i taskNum =>
            have more : i < 100 := by
              have next := sound.next
              rw [main] at next
              exact next (by simp [MainState.mine])
            have alive : state.system.destroyer ≠ .done := fun done =>
              before (sound.called.mp (by simp [done]))
            obtain ⟨ring, -, keeps, -⟩ := sound.holds
            obtain ⟨next, event, made⟩ : ∃ next event,
                systemStep state.system (.add exampleTask taskNum fun _ => true)
                  = some (next, event) := by
              obtain ⟨next, made⟩ := (queueMoves_of_keeps keeps).adds exampleTask taskNum
                (fun _ => true) alive fun asleep => asleep.imp fun worker sleeps => ⟨sleeps, rfl⟩
              exact ⟨next, _, made⟩
            have step : ProgramStep exampleTask state (.pool event)
                { state with system := next, main := .looping (i + 1) } :=
              ⟨.add fun _ => true, by simp only [programStep, main, Program.onPool, made]⟩
            refine ⟨_, _, step, ⟨sound.step step, by simp⟩, ?_⟩
            simp only [loopLeft, main, MainState.added, MainState.mine, Option.toList]
            simp
            omega)
      ⟨sound, before⟩
  exact ⟨more, ended, run, kept, all⟩

/-- Once its loop has ended `main` can call `threadpool_destroy`. -/
theorem main_destroys (sound : Sound exampleTask memory history program)
    (main : program.main = .looping 100)
    : ∃ entry after,
        ProgramStep exampleTask program entry after
        ∧ after.main = .destroying := by
  have idle : program.system.destroyer = .idle := by
    by_contra called
    cases main.symm.trans (sound.called.mp called)
  refine ⟨.pool .stopped, {
    program with
    system := ⟨threadpoolDestroy program.system.pool,
      wake (fun _ => true) program.system.workers, .joining 0⟩
    main := .destroying
  }, ⟨.destroy, ?_⟩, rfl⟩
  simp only [programStep, main, lt_irrefl, if_false, Program.onPool, systemStep, if_pos idle]

/-- From there on the program can come to its end. -/
theorem program_ends (sound : Sound exampleTask memory history program)
    (main : program.main = .destroying)
    : ∃ more ended,
        Run (ProgramStep exampleTask) program more ended
        ∧ Sound exampleTask memory (history ++ more) ended
        ∧ ended.system.destroyer = .done := by
  obtain ⟨more, ended, run, kept, same, rests⟩ := program_rests sound
  refine ⟨more, ended, run, kept, ?_⟩
  by_contra unfinished
  refine rests ((steady_run kept.pool).works ?_ unfinished)
  exact kept.called.mpr (same.trans main)

/-- Before `main` has shut the pool down the program can come to its end with all numbers
printed.
-/
theorem program_prints_all (sound : Sound exampleTask memory history program)
    (before : program.main ≠ .destroying)
    : ∃ more ended,
        Run (ProgramStep exampleTask) program more ended
        ∧ ended.system.destroyer = .done
        ∧ (printedNumbers (history ++ more)).Perm (numbersUpTo 100) := by
  -- all tasks are added, then executed, and only then the pool is shut down
  obtain ⟨adding, full, adds, sound, main⟩ := main_adds sound before
  obtain ⟨working, rested, works, sound, same, rests⟩ := program_rests sound
  rw [main] at same
  have idle : rested.system.destroyer = .idle := by
    by_contra called
    cases same.symm.trans (sound.called.mp called)
  obtain ⟨sleep, -⟩ := (steady_run sound.pool).rests idle rests
  obtain ⟨printed, -⟩ := all_printed sound same sleep
  obtain ⟨entry, stopped, stops, destroying⟩ := main_destroys sound same
  obtain ⟨ending, ended, ends, whole, done⟩ := program_ends (sound.step stops) destroying
  obtain ⟨count, -, few, overall, -⟩ := printed_at_end whole done
  have same : history ++ adding ++ working ++ [entry] ++ ending
      = history ++ (adding ++ working ++ [entry] ++ ending) := by
    simp only [List.append_assoc]
  refine ⟨_, ended, ((adds.append works).snoc stops).append ends, done, ?_⟩
  rw [← same]
  -- no number is missing, since all had been printed when the workers slept
  have all : count = 100 := by
    have many := overall.length_eq
    have before := printed.length_eq
    simp only [printedNumbers, List.filterMap_append, List.length_append, numbersUpTo,
      List.length_map, List.length_range] at many before
    omega
  rwa [all] at overall

/-- When `main` has added all its tasks and all workers sleep, every number from 0 to 99 was
printed once, and nothing is left allocated. When `threadpool_destroy` has returned, the numbers
up to some count were printed once each, and what is left allocated are the others, once each.
From any point of any run the program can come to that end, and before `main` has called
`threadpool_destroy` it can do so with all its numbers printed.
-/
theorem main_prints_or_leaks
    (run : Run (ProgramStep exampleTask) (ThreadPool.Program.init memory) history program)
    : (program.main = .looping 100
        → AllAsleep program.system
        → (printedNumbers history).Perm (numbersUpTo 100) ∧ ∀ pointer, program.heap pointer = none)
      ∧ (program.system.destroyer = .done
        → ∃ (count : Nat) (leaked : List Pointer),
            count ≤ 100
            ∧ (printedNumbers history).Perm (numbersUpTo count)
            ∧ leaked.Nodup
            ∧ (∀ pointer, program.heap pointer ≠ none ↔ pointer ∈ leaked)
            ∧ leaked.map program.heap
              = (List.range' count (100 - count)).map fun n : Nat => some (n : Int))
      ∧ ∃ more ended,
          Run (ProgramStep exampleTask) program more ended
          ∧ ended.system.destroyer = .done
          ∧ (program.main ≠ .destroying
            → (printedNumbers (history ++ more)).Perm (numbersUpTo 100)) := by
  have sound := sound_run run
  refine ⟨all_printed sound, printed_at_end sound, ?_⟩
  by_cases before : program.main = .destroying
  · obtain ⟨more, ended, rest, -, done⟩ := program_ends sound before
    exact ⟨more, ended, rest, done, fun other => absurd before other⟩
  · obtain ⟨more, ended, rest, done, printed⟩ := program_prints_all sound before
    exact ⟨more, ended, rest, done, fun _ => printed⟩

/-- A whole run that prints all numbers. -/
theorem main_prints_or_leaks_all
    : ∃ history program,
        Run (ProgramStep 4096) (ThreadPool.Program.init fun _ => ⟨0, 0⟩) history program
        ∧ program.system.destroyer = .done
        ∧ (printedNumbers history).Perm (numbersUpTo 100) := by
  have begun : Run (ProgramStep 4096) (ThreadPool.Program.init fun _ => ⟨0, 0⟩) [] _ := .nil
  obtain ⟨-, -, more, ended, run, done, printed⟩ := main_prints_or_leaks begun
  exact ⟨more, ended, run, done, printed (by simp [Program.init])⟩

end LowlevelAcademy.Correctness
