import LowlevelAcademy.Foundations.Runs

/-! Threads that each pass one critical section under a common lock. However their accesses
are interleaved, the shared data changes as if each section ran at once, in the order in which
the lock was released.
-/

namespace LowlevelAcademy.Foundations

/-- The body of a critical section: how the thread that has the lock goes on, one access to the
shared data at a time. Where there is no next access the section ends.
-/
structure Section (σ μ : Type*) where
  enter : μ
  access : σ → μ → Option (σ × μ)

namespace Section

variable {σ μ : Type*}

/-- One access, with the thread's own memory. -/
def Accesses (body : Section σ μ) (before after : σ × μ) : Prop :=
  body.access before.1 before.2 = some after

/-- What a section does to the shared data when no one else touches it. -/
def Effect (body : Section σ μ) (before after : σ) : Prop :=
  ∃ memory,
    Relation.ReflTransGen body.Accesses (before, body.enter) (after, memory)
    ∧ body.access after memory = none

/-- An invariant of a section, by induction on its accesses. -/
theorem invariant {body : Section σ μ} {property : σ → μ → Prop} {before : σ}
    (initial : property before body.enter)
    (preserved
      : ∀ {shared memory next},
          property shared memory
          → body.access shared memory = some next
          → property next.1 next.2)
    {reached : σ × μ}
    (accesses : Relation.ReflTransGen body.Accesses (before, body.enter) reached)
    : property reached.1 reached.2 := by
  induction accesses with
  | refl => exact initial
  | tail _ access ih => exact preserved ih access

end Section

namespace Locking

variable {ι σ μ : Type*}

/-- Where a thread stands: before its section, in it with its own memory, behind it, or after
its last look at the shared data.
-/
inductive Phase (μ : Type*) where
  | outside
  | inside (memory : μ)
  | left
  | finished

/-- The shared data, the thread that has the lock, and where the threads stand. -/
structure State (ι σ μ : Type*) where
  shared : σ
  owner : Option ι
  phases : ι → Phase μ

/-- What a thread does. -/
inductive Event (ι σ : Type*) where
  | acquires (thread : ι)
  | spins (thread : ι)
  | accesses (thread : ι)
  | releases (thread : ι)
  | reads (thread : ι) (seen : σ)

/-- The threads that have released the lock, in order. -/
def released (events : List (Event ι σ)) : List ι :=
  events.filterMap fun
    | .releases thread => some thread
    | _ => none

@[simp] theorem released_append (first second : List (Event ι σ))
    : released (first ++ second) = released first ++ released second := by
  simp [released]

/-- No thread has begun. -/
def State.start (shared : σ) : State ι σ μ := ⟨shared, none, fun _ => .outside⟩

variable [DecidableEq ι]

/-- The state with one thread put somewhere else. -/
def State.put (state : State ι σ μ) (thread : ι) (phase : Phase μ) : ι → Phase μ :=
  Function.update state.phases thread phase

/-- A thread takes the lock when it is free and tries again while it is taken; its accesses are
its own as long as it has the lock. Behind its section it looks at the shared data once more,
without the lock.
-/
inductive Step (body : ι → Section σ μ) (state : State ι σ μ)
    : Event ι σ → State ι σ μ → Prop
  | acquires {thread} (free : state.owner = none) (waits : state.phases thread = .outside)
    : Step body state (.acquires thread)
        ⟨state.shared, some thread, state.put thread (.inside (body thread).enter)⟩
  | spins {thread} (taken : state.owner ≠ none) (waits : state.phases thread = .outside)
    : Step body state (.spins thread) state
  | accesses {thread memory next} (has : state.owner = some thread)
    (inside : state.phases thread = .inside memory)
    (access : (body thread).access state.shared memory = some next)
    : Step body state (.accesses thread)
        ⟨next.1, some thread, state.put thread (.inside next.2)⟩
  | releases {thread memory} (has : state.owner = some thread)
    (inside : state.phases thread = .inside memory)
    (ended : (body thread).access state.shared memory = none)
    : Step body state (.releases thread) ⟨state.shared, none, state.put thread .left⟩
  | reads {thread} (behind : state.phases thread = .left)
    : Step body state (.reads thread state.shared)
        ⟨state.shared, state.owner, state.put thread .finished⟩

/-- The whole sections one after the other. -/
def Serial (body : ι → Section σ μ) (before : σ) (thread : ι) (after : σ) : Prop :=
  (body thread).Effect before after

/-- The invariant: the sections that were left have run one after the other, the one that is
under way continues from there, and only the owner of the lock is inside.
-/
structure Serialized (body : ι → Section σ μ) (shared : σ) (order : List ι)
    (state : State ι σ μ)
    : Prop where
  free : state.owner = none → Run (Serial body) shared order state.shared
  taken
    : ∀ thread,
        state.owner = some thread
        → ∃ before memory,
            Run (Serial body) shared order before
            ∧ state.phases thread = .inside memory
            ∧ Relation.ReflTransGen (body thread).Accesses (before, (body thread).enter)
              (state.shared, memory)
  exclusive : ∀ thread memory, state.phases thread = .inside memory → state.owner = some thread
  nodup : order.Nodup
  behind
    : ∀ thread,
        thread ∈ order ↔ state.phases thread = .left ∨ state.phases thread = .finished

variable {body : ι → Section σ μ} {shared : σ} {state next : State ι σ μ}
variable {events : List (Event ι σ)} {event : Event ι σ} {order : List ι}

theorem State.put_self (state : State ι σ μ) (thread : ι) (phase : Phase μ)
    : state.put thread phase thread = phase :=
  Function.update_self ..

theorem State.put_other (state : State ι σ μ) {thread other : ι} (differs : other ≠ thread)
    (phase : Phase μ)
    : state.put thread phase other = state.phases other :=
  Function.update_of_ne differs ..

/-- Where a thread stands that moved, and where the others stand. -/
theorem State.put_eq {thread other : ι} {phase moved : Phase μ}
    (stands : state.put thread phase other = moved)
    : (other = thread ∧ phase = moved) ∨ (other ≠ thread ∧ state.phases other = moved) := by
  by_cases same : other = thread
  · subst same
    exact Or.inl ⟨rfl, (state.put_self other phase).symm.trans stands⟩
  · exact Or.inr ⟨same, (state.put_other same phase).symm.trans stands⟩

/-- A thread that moves, but not out of its section, leaves the set of those behind theirs. -/
theorem Serialized.behind_put {thread : ι} {phase : Phase μ}
    (serialized : Serialized body shared order state)
    (same
      : (phase = .left ∨ phase = .finished)
        ↔ state.phases thread = .left ∨ state.phases thread = .finished)
    (other : ι)
    : other ∈ order
      ↔ state.put thread phase other = .left ∨ state.put thread phase other = .finished := by
  by_cases own : other = thread
  · subst own
    rw [state.put_self, same]
    exact serialized.behind other
  · rw [state.put_other own]
    exact serialized.behind other

/-- Every step keeps the sections serial; releasing the lock completes the one under way. -/
theorem Step.serialized (step : Step body state event next)
    (serialized : Serialized body shared order state)
    : Serialized body shared (order ++ released [event]) next := by
  cases step with
  | @acquires thread free waits =>
      change Serialized body shared (order ++ []) _
      rw [List.append_nil]
      refine ⟨by simp, ?_, ?_, serialized.nodup, serialized.behind_put (by simp [waits])⟩
      · rintro _ ⟨⟩
        exact ⟨state.shared, _, serialized.free free, state.put_self _ _, .refl⟩
      · intro other memory inside
        rcases State.put_eq inside with ⟨rfl, -⟩ | ⟨-, before⟩
        · rfl
        · cases free.symm.trans (serialized.exclusive other memory before)
  | spins =>
      change Serialized body shared (order ++ []) _
      rwa [List.append_nil]
  | @accesses thread memory reached has inside access =>
      change Serialized body shared (order ++ []) _
      rw [List.append_nil]
      obtain ⟨before, memory', run, stands, accesses⟩ := serialized.taken thread has
      obtain rfl := Phase.inside.inj (inside.symm.trans stands)
      refine ⟨by simp, ?_, ?_, serialized.nodup, serialized.behind_put (by simp [inside])⟩
      · rintro _ ⟨⟩
        exact ⟨before, _, run, state.put_self _ _, accesses.tail access⟩
      · intro other memory stays
        rcases State.put_eq stays with ⟨rfl, -⟩ | ⟨-, stood⟩
        · rfl
        · exact has.symm.trans (serialized.exclusive other memory stood)
  | @releases thread memory has inside ended =>
      change Serialized body shared (order ++ [thread]) _
      obtain ⟨before, memory', run, stands, accesses⟩ := serialized.taken thread has
      obtain rfl := Phase.inside.inj (inside.symm.trans stands)
      have fresh : thread ∉ order := by
        rw [serialized.behind, inside]
        simp
      refine ⟨fun _ => run.snoc ⟨memory, accesses, ended⟩, by simp, ?_, ?_, ?_⟩
      · intro other memory stays
        rcases State.put_eq stays with ⟨-, moved⟩ | ⟨differs, stood⟩
        · cases moved
        · have owner := serialized.exclusive other memory stood
          exact absurd (Option.some.inj (owner.symm.trans has)) differs
      · exact List.nodup_append.mpr ⟨serialized.nodup, by simp,
          by simpa using fun other member (same : other = thread) => fresh (same ▸ member)⟩
      · intro other
        by_cases own : other = thread
        · subst own
          simp [state.put_self]
        · simp [state.put_other own, own, serialized.behind other]
  | @reads thread behind =>
      change Serialized body shared (order ++ []) _
      rw [List.append_nil]
      refine ⟨serialized.free, ?_, ?_, serialized.nodup, serialized.behind_put (by simp [behind])⟩
      · intro owner has
        obtain ⟨before, memory, run, stands, accesses⟩ := serialized.taken owner has
        have differs : owner ≠ thread := by
          rintro rfl
          cases behind.symm.trans stands
        exact ⟨before, memory, run, (state.put_other differs _).trans stands, accesses⟩
      · intro other memory stays
        rcases State.put_eq stays with ⟨-, moved⟩ | ⟨-, stood⟩
        · cases moved
        · exact serialized.exclusive other memory stood

/-- At every point of every run the sections that were left have run one after the other. -/
theorem serialized_run (run : Run (Step body) (State.start shared) events state)
    : Serialized body shared (released events) state := by
  refine run.invariant (motive := fun events state =>
    Serialized body shared (released events) state) ?_ ?_
  · exact ⟨fun _ => .nil, by simp [State.start], by simp [State.start], .nil,
      by simp [State.start, released]⟩
  · intro history before label after kept step
    rw [released_append]
    exact step.serialized kept

-----------------------------------------------------------------------------------------
-- Progress
-----------------------------------------------------------------------------------------

/-- Whether an event brings its thread forward. -/
def Event.advances : Event ι σ → Bool
  | .spins _ => false
  | .acquires _ | .accesses _ | .releases _ | .reads _ _ => true

/-- No deadlock: as long as some thread is not finished, some thread can be brought forward. -/
theorem Serialized.advances (serialized : Serialized body shared order state) {thread : ι}
    (waits : state.phases thread ≠ .finished)
    : ∃ event next, Step body state event next ∧ event.advances := by
  cases owner : state.owner with
  | some holder =>
      obtain ⟨-, memory, -, inside, -⟩ := serialized.taken holder owner
      cases access : (body holder).access state.shared memory with
      | none => exact ⟨_, _, .releases owner inside access, rfl⟩
      | some next => exact ⟨_, _, .accesses owner inside access, rfl⟩
  | none =>
      cases phase : state.phases thread with
      | outside => exact ⟨_, _, .acquires owner phase, rfl⟩
      | inside memory => cases owner.symm.trans (serialized.exclusive thread memory phase)
      | left => exact ⟨_, _, .reads phase, rfl⟩
      | finished => exact absurd phase waits

/-- How many steps forward a thread has left at most, when `rank` bounds the accesses that are
left in its section.
-/
def Phase.stepsLeft (rank : μ → Nat) (enter : μ) : Phase μ → Nat
  | .outside => rank enter + 3
  | .inside memory => rank memory + 2
  | .left => 1
  | .finished => 0

variable [Fintype ι]

/-- How many steps forward all threads have left at most. -/
def State.left (body : ι → Section σ μ) (rank : μ → Nat) (state : State ι σ μ) : Nat :=
  ∑ thread, (state.phases thread).stepsLeft rank (body thread).enter

/-- Putting a thread forward leaves fewer steps. -/
theorem State.left_put {rank : μ → Nat} {thread : ι} {phase : Phase μ}
    {shared' : σ} {owner' : Option ι}
    (forward
      : phase.stepsLeft rank (body thread).enter
        < (state.phases thread).stepsLeft rank (body thread).enter)
    : State.left body rank ⟨shared', owner', state.put thread phase⟩
      < State.left body rank state := by
  refine Finset.sum_lt_sum (fun other _ => ?_) ⟨thread, Finset.mem_univ _, ?_⟩
  · by_cases own : other = thread
    · subst own
      simp only [state.put_self]
      exact Nat.le_of_lt forward
    · simp only [state.put_other own, le_refl]
  · simpa only [state.put_self] using forward

/-- Every step forward leaves fewer steps, and spinning leaves as many. -/
theorem Step.left {rank : μ → Nat}
    (lowers
      : ∀ thread shared memory next,
          (body thread).access shared memory = some next → rank next.2 < rank memory)
    (step : Step body state event next)
    : State.left body rank next + event.advances.toNat ≤ State.left body rank state := by
  cases step with
  | acquires _ waits =>
      refine State.left_put ?_
      simp [waits, Phase.stepsLeft]
  | spins => simp [Event.advances]
  | accesses _ inside access =>
      refine State.left_put ?_
      simpa [inside, Phase.stepsLeft] using lowers _ _ _ _ access
  | releases _ inside =>
      refine State.left_put ?_
      simp [inside, Phase.stepsLeft]
  | reads behind =>
      refine State.left_put ?_
      simp [behind, Phase.stepsLeft]

/-- A run brings its threads forward only so often. -/
theorem advances_le {rank : μ → Nat} {start : State ι σ μ}
    (lowers
      : ∀ thread shared memory next,
          (body thread).access shared memory = some next → rank next.2 < rank memory)
    (run : Run (Step body) start events state)
    : State.left body rank state + events.countP (·.advances)
      ≤ State.left body rank start := by
  refine run.invariant (motive := fun events state =>
    State.left body rank state + events.countP (·.advances) ≤ State.left body rank start)
    (by simp) ?_
  intro history before label after kept step
  have fewer := step.left lowers
  rw [List.countP_append, List.countP_singleton]
  cases advances : label.advances <;> simp [advances] at fewer ⊢ <;> omega

end Locking

end LowlevelAcademy.Foundations
