import LowlevelAcademy.ThreadPool.Main

/-! Who owns the numbers that `main` allocates: `main` itself until it has added the task, then
the queue, then the worker that runs the task and frees it.
-/

namespace LowlevelAcademy.ThreadPool

open LowlevelAcademy.Foundations

/-- A task that waits or that a worker holds. -/
def Live (held : Worker → Option Task) (waiting : List Task) (task : Task) : Prop :=
  task ∈ waiting ∨ ∃ worker, held worker = some task

/-- The numbers that are allocated and their owners, when `first` tasks were taken: the waiting
tasks own the numbers from there on, in order, each worker with a task owns one of those before,
and no two the same; `main` owns the next one.
-/
structure Owns (exampleTask : Pointer) (heap : Pointer → Option Int)
    (held : Worker → Option Task) (waiting : List Task) (first : Nat) (mine : Option Pointer)
    : Prop where
  calls : ∀ task, Live held waiting task → task.fn = exampleTask
  waits
    : ∀ (k : Nat) (inside : k < waiting.length),
        heap waiting[k].arg = some ((first + k : Nat) : Int)
  holds
    : ∀ worker task,
        held worker = some task → ∃ n : Nat, n < first ∧ heap task.arg = some (n : Int)
  apart
    : ∀ worker other task task',
        held worker = some task
        → held other = some task'
        → heap task.arg = heap task'.arg
        → worker = other
  mains : ∀ taskNum ∈ mine, heap taskNum = some ((first + waiting.length : Nat) : Int)
  owned
    : ∀ pointer,
        heap pointer ≠ none
        → (∃ task, Live held waiting task ∧ task.arg = pointer) ∨ mine = some pointer

variable {exampleTask : Pointer} {heap heap' : Pointer → Option Int}
  {held : Worker → Option Task} {waiting rest : List Task} {first : Nat} {mine : Option Pointer}

/-- At first there is nothing to own. -/
theorem owns_nothing : Owns exampleTask (fun _ => none) (fun _ => none) [] 0 none where
  calls := by simp [Live]
  waits := by simp
  holds := by simp
  apart := by simp
  mains := by simp
  owned := by simp

/-- The number of a live task is allocated. -/
theorem Owns.allocated (owns : Owns exampleTask heap held waiting first mine) {task : Task}
    (live : Live held waiting task)
    : heap task.arg ≠ none := by
  rcases live with waits | ⟨worker, holds⟩
  · obtain ⟨k, inside, rfl⟩ := List.mem_iff_getElem.mp waits
    rw [owns.waits k inside]
    exact Option.some_ne_none _
  · obtain ⟨n, -, number⟩ := owns.holds worker task holds
    rw [number]
    exact Option.some_ne_none _

/-- `malloc` gives `main` a number that nobody owns. -/
theorem Owns.malloc (owns : Owns exampleTask heap held waiting first none) {taskNum : Pointer}
    (free : heap taskNum = none)
    : Owns exampleTask
        (Function.update heap taskNum (some ((first + waiting.length : Nat) : Int)))
        held waiting first (some taskNum) := by
  have kept {task : Task} (live : Live held waiting task) (value : Option Int)
      : Function.update heap taskNum value task.arg = heap task.arg := by
    refine Function.update_of_ne ?_ _ _
    intro same
    exact owns.allocated live (same ▸ free)
  refine ⟨owns.calls, fun k inside => ?_, fun worker task holds => ?_, ?_, ?_, ?_⟩
  · rw [kept (Or.inl (List.getElem_mem inside))]
    exact owns.waits k inside
  · rw [kept (Or.inr ⟨worker, holds⟩)]
    exact owns.holds worker task holds
  · intro worker other task task' holds holds' same
    rw [kept (Or.inr ⟨worker, holds⟩), kept (Or.inr ⟨other, holds'⟩)] at same
    exact owns.apart worker other task task' holds holds' same
  · rintro _ ⟨⟩
    exact Function.update_self _ _ _
  · intro pointer used
    by_cases same : pointer = taskNum
    · exact Or.inr (congrArg some same.symm)
    · rw [Function.update_of_ne same] at used
      exact Or.inl ((owns.owned pointer used).resolve_right (by simp))

/-- Adding the task hands the number of `main` to the queue. -/
theorem Owns.add {taskNum : Pointer}
    (owns : Owns exampleTask heap held waiting first (some taskNum))
    : Owns exampleTask heap held (waiting ++ [⟨exampleTask, taskNum⟩]) first none := by
  refine ⟨?_, fun k inside => ?_, owns.holds, owns.apart, by simp, fun pointer used => ?_⟩
  · rintro task (waits | holds)
    · rcases List.mem_append.mp waits with earlier | last
      · exact owns.calls task (Or.inl earlier)
      · rw [List.mem_singleton.mp last]
    · exact owns.calls task (Or.inr holds)
  · rcases Nat.lt_or_ge k waiting.length with earlier | last
    · rw [List.getElem_append_left earlier]
      exact owns.waits k earlier
    · have same : k = waiting.length := by
        rw [List.length_append, List.length_singleton] at inside
        omega
      subst same
      rw [List.getElem_concat_length rfl]
      exact owns.mains taskNum rfl
  · rcases owns.owned pointer used with ⟨task, live, here⟩ | own
    · exact Or.inl ⟨task, live.imp_left fun waits => List.mem_append_left _ waits, here⟩
    · exact Or.inl ⟨⟨exampleTask, taskNum⟩, Or.inl (by simp), Option.some.inj own⟩

/-- Taking the first waiting task hands its number to the worker. -/
theorem Owns.take {task : Task} {worker : Worker}
    (owns : Owns exampleTask heap held (task :: rest) first mine) (idle : held worker = none)
    : Owns exampleTask heap (Function.update held worker (some task)) rest (first + 1) mine := by
  have number : heap task.arg = some (first : Int) := owns.waits 0 (Nat.zero_lt_succ _)
  have holder {other : Worker} {task' : Task}
      (holds : Function.update held worker (some task) other = some task')
      : other = worker ∧ task' = task ∨ other ≠ worker ∧ held other = some task' := by
    by_cases same : other = worker
    · subst same
      rw [Function.update_self] at holds
      exact Or.inl ⟨rfl, (Option.some.inj holds).symm⟩
    · rw [Function.update_of_ne same] at holds
      exact Or.inr ⟨same, holds⟩
  have differs {other : Worker} {task' : Task} (holds : held other = some task')
      : heap task'.arg ≠ heap task.arg := by
    obtain ⟨n, before, number'⟩ := owns.holds other task' holds
    rw [number, number']
    simp only [ne_eq, Option.some.injEq, Nat.cast_inj]
    omega
  refine ⟨?_, fun k inside => ?_, ?_, ?_, ?_, fun pointer used => ?_⟩
  · rintro task' (waits | ⟨other, holds⟩)
    · exact owns.calls task' (Or.inl (List.mem_cons_of_mem _ waits))
    · rcases holder holds with ⟨-, rfl⟩ | ⟨-, held⟩
      · exact owns.calls task' (Or.inl (List.mem_cons_self ..))
      · exact owns.calls task' (Or.inr ⟨other, held⟩)
  · have later := owns.waits (k + 1) (Nat.succ_lt_succ inside)
    rw [List.getElem_cons_succ] at later
    rw [later, Nat.add_right_comm, Nat.add_assoc]
  · intro other task' holds
    rcases holder holds with ⟨-, rfl⟩ | ⟨-, held⟩
    · exact ⟨first, Nat.lt_succ_self _, number⟩
    · obtain ⟨n, before, number'⟩ := owns.holds other task' held
      exact ⟨n, Nat.lt_succ_of_lt before, number'⟩
  · intro one other task₁ task₂ holds₁ holds₂ same
    rcases holder holds₁ with ⟨rfl, rfl⟩ | ⟨-, held₁⟩
    · rcases holder holds₂ with ⟨rfl, -⟩ | ⟨-, held₂⟩
      · rfl
      · exact absurd same.symm (differs held₂)
    · rcases holder holds₂ with ⟨-, rfl⟩ | ⟨-, held₂⟩
      · exact absurd same (differs held₁)
      · exact owns.apart one other task₁ task₂ held₁ held₂ same
  · intro taskNum own
    rw [owns.mains taskNum own, List.length_cons]
    congr 2
    omega
  · rcases owns.owned pointer used with ⟨task', live, here⟩ | own
    · refine Or.inl ⟨task', ?_, here⟩
      rcases live with waits | ⟨other, holds⟩
      · rcases List.mem_cons.mp waits with rfl | later
        · exact Or.inr ⟨worker, Function.update_self ..⟩
        · exact Or.inl later
      · refine Or.inr ⟨other, ?_⟩
        rwa [Function.update_of_ne]
        rintro rfl
        cases idle.symm.trans holds
    · exact Or.inr own

/-- A worker that still holds a task when another has given its own up held it before. -/
theorem held_of_update {worker other : Worker} {task : Task}
    (stays : Function.update held worker none other = some task)
    : other ≠ worker ∧ held other = some task := by
  by_cases same : other = worker
  · subst same
    rw [Function.update_self] at stays
    cases stays
  · rw [Function.update_of_ne same] at stays
    exact ⟨same, stays⟩

/-- A worker's `free` leaves the numbers of the other workers alone. -/
theorem Owns.kept {worker other : Worker} {task task' : Task}
    (owns : Owns exampleTask heap held waiting first mine) (holds : held worker = some task)
    (apart : other ≠ worker) (holds' : held other = some task')
    : Function.update heap task.arg none task'.arg = heap task'.arg := by
  refine Function.update_of_ne (fun same => apart ?_) _ _
  exact owns.apart other worker task' task holds' holds (congrArg heap same)

/-- `free` gives up the number of the worker's task; all others stay as they are. -/
theorem Owns.free {task : Task} {worker : Worker}
    (owns : Owns exampleTask heap held waiting first mine) (holds : held worker = some task)
    : Owns exampleTask (Function.update heap task.arg none) (Function.update held worker none)
        waiting first mine := by
  obtain ⟨n, before, number⟩ := owns.holds worker task holds
  have keptLater {pointer : Pointer} {m : Nat} (later : first ≤ m)
      (number' : heap pointer = some (m : Int))
      : Function.update heap task.arg none pointer = heap pointer := by
    refine Function.update_of_ne (fun same => ?_) _ _
    rw [same, number, Option.some.injEq, Nat.cast_inj] at number'
    omega
  refine ⟨?_, fun k inside => ?_, ?_, ?_, ?_, fun pointer used => ?_⟩
  · rintro task' (waits | ⟨other, stays⟩)
    · exact owns.calls task' (Or.inl waits)
    · exact owns.calls task' (Or.inr ⟨other, (held_of_update stays).2⟩)
  · have waits := owns.waits k inside
    rw [keptLater (Nat.le_add_right _ _) waits, waits]
  · intro other task' stays
    obtain ⟨apart, held'⟩ := held_of_update stays
    rw [owns.kept holds apart held']
    exact owns.holds other task' held'
  · intro one other task₁ task₂ stays₁ stays₂ same
    obtain ⟨apart₁, held₁⟩ := held_of_update stays₁
    obtain ⟨apart₂, held₂⟩ := held_of_update stays₂
    rw [owns.kept holds apart₁ held₁, owns.kept holds apart₂ held₂] at same
    exact owns.apart one other task₁ task₂ held₁ held₂ same
  · intro taskNum own
    have mains := owns.mains taskNum own
    rw [keptLater (Nat.le_add_right _ _) mains, mains]
  · by_cases same : pointer = task.arg
    · subst same
      rw [Function.update_self] at used
      exact absurd rfl used
    · rw [Function.update_of_ne same] at used
      refine (owns.owned pointer used).imp_left ?_
      rintro ⟨task', live, here⟩
      refine ⟨task', live.imp_right ?_, here⟩
      rintro ⟨other, held'⟩
      refine ⟨other, ?_⟩
      rwa [Function.update_of_ne]
      rintro rfl
      obtain rfl := Option.some.inj (holds.symm.trans held')
      exact same here.symm

-----------------------------------------------------------------------------------------
-- What was printed
-----------------------------------------------------------------------------------------

/-- Each number of a task that was taken was printed once, unless a worker holds the task and
has not printed yet.
-/
structure Prints (heap : Pointer → Option Int) (held : Worker → Option Task)
    (printed : Worker → Bool) (first : Nat) (numbers : List Int)
    : Prop where
  once : numbers.Nodup
  which
    : ∀ num,
        num ∈ numbers
        ↔ (∃ n : Nat, n < first ∧ num = n)
          ∧ ∀ worker task,
              held worker = some task → heap task.arg = some num → printed worker = true
  inside : ∀ worker, printed worker = true → held worker ≠ none

variable {printed : Worker → Bool} {numbers : List Int}

/-- Nothing changes as long as the numbers of the tasks that workers hold do not. -/
theorem Prints.frame (prints : Prints heap held printed first numbers)
    (kept : ∀ worker task, held worker = some task → heap' task.arg = heap task.arg)
    : Prints heap' held printed first numbers := by
  refine ⟨prints.once, fun num => ?_, prints.inside⟩
  rw [prints.which num]
  refine and_congr_right fun _ => forall₃_congr fun worker task holds => ?_
  rw [kept worker task holds]

/-- A worker that has just taken a task has not printed its number. -/
theorem Prints.take {task : Task} {worker : Worker}
    (prints : Prints heap held printed first numbers)
    (owns : Owns exampleTask heap held (task :: rest) first mine) (idle : held worker = none)
    : Prints heap (Function.update held worker (some task)) printed (first + 1) numbers := by
  have number : heap task.arg = some (first : Int) := owns.waits 0 (Nat.zero_lt_succ _)
  have silent : printed worker = false := by
    by_contra speaks
    exact prints.inside worker (by simpa using speaks) idle
  refine ⟨prints.once, fun num => ?_, fun other speaks => ?_⟩
  · rw [prints.which num]
    constructor
    · rintro ⟨⟨n, before, rfl⟩, spoken⟩
      refine ⟨⟨n, Nat.lt_succ_of_lt before, rfl⟩, fun other task' holds same => ?_⟩
      by_cases own : other = worker
      · subst own
        rw [Function.update_self] at holds
        obtain rfl := Option.some.inj holds
        have clash := Option.some.inj (number.symm.trans same)
        omega
      · rw [Function.update_of_ne own] at holds
        exact spoken other task' holds same
    · rintro ⟨⟨n, before, rfl⟩, spoken⟩
      refine ⟨⟨n, ?_, rfl⟩, fun other task' holds same => ?_⟩
      · refine Nat.lt_of_le_of_ne (Nat.le_of_lt_succ before) fun last => ?_
        have speaks := spoken worker task (Function.update_self ..) (by rw [number, last])
        rw [silent] at speaks
        cases speaks
      · refine spoken other task' ?_ same
        rwa [Function.update_of_ne]
        rintro rfl
        cases idle.symm.trans holds
  · by_cases own : other = worker
    · subst own
      rw [silent] at speaks
      cases speaks
    · rw [Function.update_of_ne own]
      exact prints.inside other speaks

/-- A worker prints the number of its task. -/
theorem Prints.print {task : Task} {worker : Worker} {num : Int}
    (prints : Prints heap held printed first numbers)
    (owns : Owns exampleTask heap held waiting first mine) (holds : held worker = some task)
    (silent : printed worker = false) (number : heap task.arg = some num)
    : Prints heap held (Function.update printed worker true) first (numbers ++ [num]) := by
  have fresh : num ∉ numbers := by
    rw [prints.which num]
    rintro ⟨-, spoken⟩
    rw [spoken worker task holds number] at silent
    cases silent
  obtain ⟨n, before, number'⟩ := owns.holds worker task holds
  obtain rfl := Option.some.inj (number.symm.trans number')
  refine ⟨?_, fun other => ?_, fun other speaks => ?_⟩
  · exact List.nodup_append.mpr ⟨prints.once, by simp,
      by simpa using fun value member (same : value = (n : Int)) => fresh (same ▸ member)⟩
  · rw [List.mem_append, List.mem_singleton, prints.which other]
    constructor
    · rintro (⟨taken, spoken⟩ | rfl)
      · refine ⟨taken, fun one task' holds' same => ?_⟩
        by_cases own : one = worker
        · rw [own, Function.update_self]
        · rw [Function.update_of_ne own]
          exact spoken one task' holds' same
      · refine ⟨⟨n, before, rfl⟩, fun one task' holds' same => ?_⟩
        rw [owns.apart one worker task' task holds' holds (same.trans number.symm),
          Function.update_self]
    · rintro ⟨taken, spoken⟩
      by_cases same : other = (n : Int)
      · exact Or.inr same
      · refine Or.inl ⟨taken, fun one task' holds' value => ?_⟩
        have speaks := spoken one task' holds' value
        rwa [Function.update_of_ne] at speaks
        rintro rfl
        obtain rfl := Option.some.inj (holds.symm.trans holds')
        exact same (Option.some.inj (value.symm.trans number))
  · by_cases own : other = worker
    · rw [own, holds]
      exact Option.some_ne_none _
    · rw [Function.update_of_ne own] at speaks
      exact prints.inside other speaks

/-- A worker that has printed can give its task up. -/
theorem Prints.free {task : Task} {worker : Worker}
    (prints : Prints heap held printed first numbers)
    (owns : Owns exampleTask heap held waiting first mine) (holds : held worker = some task)
    (spoke : printed worker = true)
    : Prints (Function.update heap task.arg none) (Function.update held worker none)
        (Function.update printed worker false) first numbers := by
  refine ⟨prints.once, fun num => ?_, fun other speaks => ?_⟩
  · rw [prints.which num]
    refine and_congr_right fun _ => ⟨fun spoken other task' stays same => ?_,
      fun spoken other task' holds' same => ?_⟩
    · obtain ⟨apart, holds'⟩ := held_of_update stays
      rw [owns.kept holds apart holds'] at same
      rw [Function.update_of_ne apart]
      exact spoken other task' holds' same
    · by_cases own : other = worker
      · rwa [own]
      · have speaks := spoken other task' (by rwa [Function.update_of_ne own])
          (by rwa [owns.kept holds own holds'])
        rwa [Function.update_of_ne own] at speaks
  · by_cases own : other = worker
    · rw [own, Function.update_self] at speaks
      cases speaks
    · rw [Function.update_of_ne own] at speaks ⊢
      exact prints.inside other speaks

end LowlevelAcademy.ThreadPool
