import Mathlib

/-! Runs of a labelled transition relation, with the history of their labels. Invariants may
mention the history, so a state can be tied to what happened before it.
-/

namespace LowlevelAcademy.Foundations

variable {σ α : Type*}

/-- `Run step start history state`: steps labelled by `history`, in order, lead from `start`
to `state`.
-/
inductive Run (step : σ → α → σ → Prop) (start : σ) : List α → σ → Prop
  | nil : Run step start [] start
  | snoc {history state label next} (earlier : Run step start history state)
    (last : step state label next)
    : Run step start (history ++ [label]) next

namespace Run

variable {step : σ → α → σ → Prop} {start state next : σ} {history : List α}

/-- One step is a run. -/
theorem single {label : α} (only : step start label next) : Run step start [label] next :=
  .snoc .nil only

/-- Runs compose, by induction on the second one. -/
theorem append {more : List α} (first : Run step start history state)
    (second : Run step state more next)
    : Run step start (history ++ more) next := by
  induction second with
  | nil => simpa using first
  | snoc _ last ih => simpa only [List.append_assoc] using ih.snoc last

/-- A run with a last label ends with a step of that label. -/
theorem last {label : α} (run : Run step start (history ++ [label]) next)
    : ∃ state, Run step start history state ∧ step state label next := by
  generalize whole : history ++ [label] = labels at run
  cases run with
  | nil => simp at whole
  | snoc earlier last =>
      obtain ⟨rfl, same⟩ := List.append_inj' whole rfl
      obtain rfl := List.singleton_inj.mp same
      exact ⟨_, earlier, last⟩

/-- A run splits wherever its history does, by induction on the second part from its end. -/
theorem split {before after : List α} (run : Run step start (before ++ after) next)
    : ∃ state, Run step start before state ∧ Run step state after next := by
  induction after using List.reverseRecOn generalizing next with
  | nil => exact ⟨next, by simpa using run, .nil⟩
  | append_singleton after label ih =>
      rw [← List.append_assoc] at run
      obtain ⟨middle, earlier, final⟩ := run.last
      obtain ⟨state, first, second⟩ := ih earlier
      exact ⟨state, first, second.snoc final⟩

/-- A run passes each of its labels by a step of that label. -/
theorem passes {label : α} {before after : List α}
    (run : Run step start (before ++ label :: after) next)
    : ∃ state reached,
        Run step start before state ∧ step state label reached ∧ Run step reached after next := by
  rw [← List.singleton_append, ← List.append_assoc] at run
  obtain ⟨reached, first, second⟩ := run.split
  obtain ⟨state, earlier, passing⟩ := first.last
  exact ⟨state, reached, earlier, passing, second⟩

/-- A step in front of a run gives a run. -/
theorem cons {label : α} {more : List α} (first : step start label state)
    (rest : Run step state more next)
    : Run step start (label :: more) next :=
  (single first).append rest

/-- A run of one relation is a run of every relation that allows its steps. -/
theorem mono {step' : σ → α → σ → Prop}
    (allowed : ∀ state label next, step state label next → step' state label next)
    (run : Run step start history state)
    : Run step' start history state := by
  induction run with
  | nil => exact .nil
  | snoc _ last ih => exact ih.snoc (allowed _ _ _ last)

/-- The invariant rule: what holds at the start with an empty history and is kept by every
step, with its label added to the history, holds along every run.
-/
theorem invariant {motive : List α → σ → Prop} (initial : motive [] start)
    (preserved
      : ∀ history state label next,
          motive history state → step state label next → motive (history ++ [label]) next)
    (run : Run step start history state)
    : motive history state := by
  induction run with
  | nil => exact initial
  | snoc _ last ih => exact preserved _ _ _ _ ih last

/-- The invariant rule for properties of the state alone. -/
theorem stateInvariant {motive : σ → Prop} (initial : motive start)
    (preserved : ∀ state label next, motive state → step state label next → motive next)
    (run : Run step start history state)
    : motive state :=
  run.invariant (motive := fun _ state => motive state) initial
    (fun _ state label next => preserved state label next)

/-- The progress rule: when wherever the goal is not reached some step lowers a measure, a run
reaches it. By strong induction on the measure.
-/
theorem reach {motive : List α → σ → Prop} {goal : σ → Prop} (measure : σ → Nat)
    (advance
      : ∀ history state,
          motive history state
          → ¬ goal state
          → ∃ label next,
              step state label next
              ∧ motive (history ++ [label]) next
              ∧ measure next < measure state)
    (holds : motive history state)
    : ∃ more next, Run step state more next ∧ motive (history ++ more) next ∧ goal next := by
  induction bound : measure state using Nat.strong_induction_on generalizing history state with
  | _ size ih =>
      by_cases reached : goal state
      · exact ⟨[], state, .nil, by rwa [List.append_nil], reached⟩
      · obtain ⟨label, after, first, kept, less⟩ := advance history state holds reached
        obtain ⟨more, next, rest, final, reached⟩ := ih _ (bound ▸ less) kept rfl
        exact ⟨label :: more, next, .cons first rest, by simpa using final, reached⟩

end Run

-----------------------------------------------------------------------------------------
-- The last label of a kind
-----------------------------------------------------------------------------------------

/-- The last label of the history that has the property. -/
def LastWith (p : α → Prop) (history : List α) (label : α) : Prop :=
  ∃ before after, history = before ++ label :: after ∧ p label ∧ ∀ later ∈ after, ¬ p later

theorem not_lastWith_nil {p : α → Prop} (label : α) : ¬ LastWith p [] label := by
  rintro ⟨before, after, split, -⟩
  simp at split

/-- One more label is the last one with the property, or it does not have it. -/
theorem lastWith_snoc_iff {p : α → Prop} {history : List α} {last label : α}
    : LastWith p (history ++ [last]) label
      ↔ p last ∧ label = last ∨ ¬ p last ∧ LastWith p history label := by
  constructor
  · rintro ⟨before, after, split, holds, none⟩
    induction after using List.reverseRecOn with
    | nil =>
        obtain ⟨-, same⟩ := List.append_inj' split rfl
        obtain rfl := List.singleton_inj.mp same
        exact Or.inl ⟨holds, rfl⟩
    | append_singleton after final =>
        rw [← List.cons_append, ← List.append_assoc] at split
        obtain ⟨earlier, same⟩ := List.append_inj' split rfl
        obtain rfl := List.singleton_inj.mp same
        exact Or.inr ⟨none _ (by simp), before, after, earlier, holds,
          fun later member => none later (List.mem_append_left _ member)⟩
  · rintro (⟨holds, rfl⟩ | ⟨none, before, after, rfl, holds, others⟩)
    · exact ⟨history, [], rfl, holds, fun _ member => absurd member List.not_mem_nil⟩
    · refine ⟨before, after ++ [last], by simp, holds, fun later member => ?_⟩
      rcases List.mem_append.mp member with old | new
      · exact others later old
      · rwa [List.mem_singleton.mp new]

/-- There is a last one as soon as there is one, by induction on the history from its end. -/
theorem exists_lastWith {p : α → Prop} {history : List α} (some : ∃ label ∈ history, p label)
    : ∃ label, LastWith p history label := by
  induction history using List.reverseRecOn with
  | nil =>
      obtain ⟨label, member, -⟩ := some
      cases member
  | append_singleton history last ih =>
      by_cases holds : p last
      · exact ⟨last, lastWith_snoc_iff.mpr (Or.inl ⟨holds, rfl⟩)⟩
      · obtain ⟨label, member, found⟩ := some
        rcases List.mem_append.mp member with old | new
        · obtain ⟨other, isLast⟩ := ih ⟨label, old, found⟩
          exact ⟨other, lastWith_snoc_iff.mpr (Or.inr ⟨holds, isLast⟩)⟩
        · obtain rfl := List.mem_singleton.mp new
          exact absurd found holds

/-- The last one is one of them. -/
theorem LastWith.mem {p : α → Prop} {history : List α} {label : α}
    (last : LastWith p history label)
    : label ∈ history := by
  obtain ⟨before, after, rfl, -⟩ := last
  simp

end LowlevelAcademy.Foundations
