import LowlevelAcademy.Foundations.Runs

/-! A shared list that sessions append to and read, once they were admitted. What a reader is
shown depends on the order of the events alone, not on who caused them.
-/

namespace LowlevelAcademy.Foundations

/-- How far a session has come. -/
inductive Admission where
  | absent
  | waiting
  | admitted
  deriving DecidableEq

/-- The sessions and the shared list. -/
structure Ledger (κ ρ : Type*) where
  standing : κ → Admission
  entries : List ρ

namespace Ledger

variable {κ ρ : Type*}

/-- What happens to a ledger. -/
inductive Event (κ ρ : Type*) where
  | opened (session : κ)
  | admitted (session : κ)
  | appended (session : κ) (entry : ρ)
  | listed (session : κ) (shown : List ρ)
  | closed (session : κ)

/-- The session an event is about. -/
def Event.session : Event κ ρ → κ
  | .opened session | .admitted session | .appended session _ | .listed session _
  | .closed session => session

/-- An event that only an admitted session causes. -/
def Event.Uses : Event κ ρ → Prop
  | .appended _ _ | .listed _ _ => True
  | .opened _ | .admitted _ | .closed _ => False

/-- The entries that a history appends. -/
def appended (events : List (Event κ ρ)) : List ρ :=
  events.filterMap fun
    | .appended _ entry => some entry
    | _ => none

@[simp] theorem appended_nil : appended ([] : List (Event κ ρ)) = [] := rfl

@[simp] theorem appended_append (first second : List (Event κ ρ))
    : appended (first ++ second) = appended first ++ appended second := by
  simp [appended]

variable [DecidableEq κ]

/-- The ledger with the standing of one session replaced. -/
def stand (ledger : Ledger κ ρ) (session : κ) (admission : Admission) : Ledger κ ρ where
  standing := Function.update ledger.standing session admission
  entries := ledger.entries

@[simp] theorem stand_entries (ledger : Ledger κ ρ) (session : κ) (admission : Admission)
    : (ledger.stand session admission).entries = ledger.entries :=
  rfl

/-- A session that is put where it stands does not move. -/
theorem stand_standing (ledger : Ledger κ ρ) (session : κ)
    : ledger.stand session (ledger.standing session) = ledger := by
  simp [stand]

/-- A session is opened, then admitted; only an admitted one appends entries and is shown
the list, which is shown whole.
-/
inductive Step (ledger : Ledger κ ρ) : Event κ ρ → Ledger κ ρ → Prop
  | opened {session} (absent : ledger.standing session = .absent)
    : Step ledger (.opened session) (ledger.stand session .waiting)
  | admitted {session} (waiting : ledger.standing session = .waiting)
    : Step ledger (.admitted session) (ledger.stand session .admitted)
  | appended {session} {entry} (admitted : ledger.standing session = .admitted)
    : Step ledger (.appended session entry) ⟨ledger.standing, ledger.entries ++ [entry]⟩
  | listed {session} (admitted : ledger.standing session = .admitted)
    : Step ledger (.listed session ledger.entries) ledger
  | closed {session} (present : ledger.standing session ≠ .absent)
    : Step ledger (.closed session) (ledger.stand session .absent)

variable {start ledger next : Ledger κ ρ} {events before middle after : List (Event κ ρ)}
variable {event : Event κ ρ} {session other : κ} {shown later : List ρ} {entry : ρ}

/-- The entries after a step. -/
theorem Step.entries (step : Step ledger event next)
    : next.entries = ledger.entries ++ Ledger.appended [event] := by
  cases step <;> simp [Ledger.appended]

/-- A step changes the standing of its own session only. -/
theorem Step.standing_other (step : Step ledger event next) (others : session ≠ event.session)
    : next.standing session = ledger.standing session := by
  cases step <;> simp_all [stand, Event.session]

/-- The list only grows, by what the history appends. -/
theorem entries_run (run : Run Step start events ledger)
    : ledger.entries = start.entries ++ appended events := by
  refine run.invariant (motive := fun events ledger =>
    ledger.entries = start.entries ++ appended events) (by simp) ?_
  intro history state label next kept step
  rw [step.entries, kept, appended_append, List.append_assoc]

/-- A reader is shown the list as it stands: what was there at the start and what was
appended before.
-/
theorem listed_shows (run : Run Step start (before ++ .listed session shown :: after) ledger)
    : shown = start.entries ++ appended before := by
  obtain ⟨state, reached, earlier, reading, -⟩ := run.passes
  cases reading
  exact entries_run earlier

/-- Between two readings the list grows by what was appended between them, whoever read and
whoever appended.
-/
theorem listed_extends
    (run
      : Run Step start
          (before ++ .listed session shown :: (middle ++ .listed other later :: after)) ledger)
    : later = shown ++ appended middle := by
  have first := listed_shows run
  rw [← List.cons_append, ← List.append_assoc] at run
  have second := listed_shows run
  rw [second, first, appended_append, List.append_assoc]
  rfl

/-- A session that stands admitted was admitted in the history and not closed since, unless it
was admitted at the start. By induction on the run: the last event about the session decides.
-/
theorem admitted_before (outside : start.standing session ≠ .admitted)
    (run : Run Step start events ledger) (stands : ledger.standing session = .admitted)
    : ∃ earlier since,
        events = earlier ++ .admitted session :: since ∧ .closed session ∉ since := by
  induction run with
  | nil => exact absurd stands outside
  | @snoc history state event next earlier step ih =>
      have extend (stood : state.standing session = .admitted) (unclosed : event ≠ .closed session)
          : ∃ earlier since,
              history ++ [event] = earlier ++ .admitted session :: since
              ∧ .closed session ∉ since := by
        obtain ⟨before, since, rfl, kept⟩ := ih stood
        exact ⟨before, since ++ [event], by simp, by simp [kept, Ne.symm unclosed]⟩
      by_cases own : session = event.session
      · cases step with
        | opened | closed =>
            obtain rfl : session = _ := own
            simp [stand] at stands
        | admitted =>
            obtain rfl : session = _ := own
            exact ⟨history, [], rfl, by simp⟩
        | appended | listed => exact extend stands (by simp)
      · rw [step.standing_other own] at stands
        exact extend stands fun closes => own (closes ▸ rfl)

/-- Whoever appends or reads was admitted before and not closed since. -/
theorem admitted_before_use (outside : ∀ session, start.standing session ≠ .admitted)
    (run : Run Step start (before ++ event :: after) ledger) (uses : event.Uses)
    : ∃ earlier since,
        before = earlier ++ .admitted event.session :: since
        ∧ .closed event.session ∉ since := by
  obtain ⟨state, reached, earlier, step, -⟩ := run.passes
  cases step with
  | opened | admitted | closed => exact uses.elim
  | appended admitted | listed admitted => exact admitted_before (outside _) earlier admitted

end Ledger

end LowlevelAcademy.Foundations
