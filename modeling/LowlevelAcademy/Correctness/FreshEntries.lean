import LowlevelAcademy.Server.Traces

/-! Which entries of the poll set the event loop looks at: those that were polled, as long as
every ready one has `POLLIN` set, and an entry behind them when one has not.
-/

namespace LowlevelAcademy.Correctness

open LowlevelAcademy.Foundations
open LowlevelAcademy.Database
open LowlevelAcademy.Server

/-- The number of entries that were passed to the last `poll` of a run. -/
def polledEntries (steps : List StepRecord) : Nat :=
  steps.foldl (fun polled step => step.before.polledAfter polled) 0

/-- The entry that the event loop examines next is one of the polled ones, and when it acts on
it, the entry's descriptor leads to a slot.
-/
def ExaminesFresh (polled : Nat) (server : State) : Prop :=
  server.Examines fun i => i < polled ∧ server.Finds (fun _ => True) i

/-- `POLLERR`, `POLLHUP` and `POLLNVAL` -/
def pollerr : UInt16 := 8
def pollhup : UInt16 := 16
def pollnval : UInt16 := 32

/-- What `poll` may report for entries that ask for `POLLIN`. -/
def PollContract : Guard := fun server env =>
  ∀ events ∈ env.poll, ∀ j, j.val < server.nfds →
    events j &&& (pollin ||| pollerr ||| pollhup ||| pollnval) = events j

/-- `poll` and `accept` keep their contracts. -/
def SocketContracts : Guard := fun server env =>
  FreshAccept server env ∧ PollContract server env

/-- The condition on a step: every polled entry with events has `POLLIN` among them, and an add
string ends inside its client's buffer.
-/
def PollinAndEnded : Guard := fun server env =>
  PolledPollin server env ∧ EndedAdds server env

variable {dbfd : Nat} {server : State} {steps : List StepRecord}

/-- The loop's invariant holds with the entries that the run's last `poll` was given. -/
theorem consistentAt_polledEntries {start : State} (consistent : start.ConsistentAt 0)
    (run
      : RecordedRun dbfd (fun state env => SocketContracts state env ∧ PollinAndEnded state env)
          start steps server)
    : server.ConsistentAt (polledEntries steps) := by
  refine run.invariant
    (motive := fun steps server => server.ConsistentAt (polledEntries steps)) consistent ?_
  rintro steps server step next kept ⟨rfl, -, ⟨⟨fresh, -⟩, ready, ended⟩, result⟩
  rw [polledEntries, List.foldl_append]
  exact kept.step fresh ready ended result

/-- In every run in which all polled entries with events have `POLLIN` set and all add strings
end inside their client's buffer, whatever else `poll` reports and `accept` returns, the event
loop examines only polled entries and finds the slot of each one it acts on.
-/
theorem entries_fresh {db : Db} {file : OpenFile UInt8} {listenFd : Int32}
    (run
      : RecordedRun dbfd (fun state env => SocketContracts state env ∧ PollinAndEnded state env)
          (startServer db file listenFd) steps server)
    : ExaminesFresh (polledEntries steps) server := by
  have start := startServer_consistent db file listenFd
  have consistent := consistentAt_polledEntries
    ⟨start.tidy, start.count, fun _ _ impossible => nomatch impossible⟩ run
  intro i nEvents position _ more
  have scanning := consistent.scanning i nEvents position
  obtain ⟨below, inside⟩ := scanning.inside more
  obtain ⟨slot, found, -⟩ := scanning.lookup consistent.tidy inside below
  exact ⟨below, inside, fun _ => ⟨slot, found, trivial⟩⟩

-----------------------------------------------------------------------------------------
-- One client with one event
-----------------------------------------------------------------------------------------

/-- The events when only the first client's entry has some. -/
private def firstEntry (event : UInt16) : Fin (maxClients + 1) → UInt16 :=
  fun j => if j.val = 1 then event else 0

/-- The system calls of an iteration in which it has. -/
private def firstEntryEnv (event : UInt16) : Env where
  poll := some (firstEntry event)
  accept := -1
  read := none
  realloc := none
  writes := fun _ => .complete

/-- A single entry with an event is counted once, whatever the event is. -/
private theorem readyCount_firstEntry {event : UInt16} (reported : event ≠ 0)
    : readyCount 2 (firstEntry event) = 1 := by
  have same : (fun j : Fin (maxClients + 1) => decide (j.val < 2) && firstEntry event j != 0)
      = fun j => decide (j.val = 1) := by
    funext j
    by_cases first : j.val = 1 <;> simp [firstEntry, first, reported]
  rw [readyCount, same]
  decide +kernel

/-- Without a read there is no add string. -/
private theorem endedAdds_of_unread {env : Env} (unread : env.read = none)
    : EndedAdds server env := by
  intro slot _ chunk received
  rw [unread] at received
  cases received

/-- A client connects to a new server, and then `poll` reports an event for it: the loop stands
at its entry, one of two that were polled.
-/
private theorem first_entry_run (event : UInt16) (reported : event ≠ 0)
    (contract : event &&& (pollin ||| pollerr ||| pollhup ||| pollnval) = event)
    : ∃ steps world fds,
        RecordedRun 3
          (fun state env =>
            SocketContracts state env
            ∧ (event &&& pollin ≠ 0 → PolledPollin state env) ∧ EndedAdds state env)
          (startServer ⟨headerOf 0, some []⟩ (.opened []) 4) steps ⟨world, fds, 2, .scan 1 1⟩
        ∧ polledEntries steps = 2
        ∧ ∀ inside : 1 < maxClients + 1, (fds ⟨1, inside⟩).revents = event := by
  let start := startServer ⟨headerOf 0, some []⟩ (.opened []) 4
  have consistent : start.Consistent := startServer_consistent _ _ _
  have free : findFreeSlot start.world.clients = some 0 :=
    findFreeSlot_first rfl fun other below => absurd below (Fin.not_lt_zero other)
  obtain ⟨fds, accepting⟩ :=
    consistent.accept_step 3 rfl free (show (5 : Int32) ≠ -1 by decide)
  let world := start.world.connect 0 5
  let polled := (rebuildFds world.clients (List.finRange maxClients) 1 fds).report 2
    (firstEntry event)
  have silent : ¬ (polled 0).readable := by
    simp [polled, Fds.report, firstEntry, PollFd.readable]
  have polling : pollLoopStep (firstEntryEnv event) 3 ⟨world, fds, 2, .poll⟩
      = .ok (⟨world, polled, 2, .scan 1 1⟩, []) := by
    have started :=
      @pollStep_silent ⟨world, fds, 2, .poll⟩ (firstEntryEnv event) _ _ rfl rfl silent
    rw [readyCount_firstEntry reported] at started
    exact started
  refine ⟨[] ++ [⟨start, pollEnv 0 5, [.accepted 0 5], ⟨world, fds, 2, .scan 1 0⟩⟩]
      ++ [⟨⟨world, fds, 2, .scan 1 0⟩, clientEnv none none, [], ⟨world, fds, 2, .poll⟩⟩]
      ++ [⟨⟨world, fds, 2, .poll⟩, firstEntryEnv event, [], ⟨world, polled, 2, .scan 1 1⟩⟩],
    world, polled, ((Run.nil.snoc ⟨rfl, rfl, ?accept, accepting⟩).snoc
      ⟨rfl, rfl, ?done, pollLoopStep_done _⟩).snoc ⟨rfl, rfl, ?poll, polling⟩, rfl, ?event⟩
  case accept =>
    refine ⟨⟨fun slot _ => ?_, ?_⟩, fun _ => ?_, endedAdds_of_unread rfl⟩
    · simp [startServer, initClients, pollEnv]
    · rintro _ ⟨⟩ j -
      have alone : pollin &&& (pollin ||| pollerr ||| pollhup ||| pollnval) = pollin := by decide
      by_cases same : j = 0 <;> simp [onlyReady, same, alone]
    · rintro _ ⟨⟩ j - event
      by_cases same : j = 0 <;> simp_all [onlyReady, pollin]
  case done =>
    exact ⟨⟨fun _ impossible => absurd rfl impossible, by rintro _ ⟨⟩⟩,
      fun _ => by rintro _ ⟨⟩, endedAdds_of_unread rfl⟩
  case poll =>
    refine ⟨⟨fun _ impossible => absurd rfl impossible, ?_⟩, fun readable => ?_,
      endedAdds_of_unread rfl⟩
    · rintro _ ⟨⟩ j -
      by_cases same : j.val = 1 <;> simp [firstEntry, same, contract]
    · rintro _ ⟨⟩ j - event
      by_cases same : j.val = 1
      · simpa [firstEntry, same] using readable
      · simp [firstEntry, same] at event
  case event =>
    intro inside
    simp [polled, Fds.report, firstEntry]

/-- With input waiting at the first client, the loop examines its entry. -/
theorem entries_fresh_input
    : ∃ steps server,
        RecordedRun 3 (fun state env => SocketContracts state env ∧ PollinAndEnded state env)
          (startServer ⟨headerOf 0, some []⟩ (.opened []) 4) steps server
        ∧ server.position = .scan 1 1
        ∧ ExaminesFresh (polledEntries steps) server := by
  obtain ⟨steps, world, fds, run, -⟩ := first_entry_run pollin (by decide) (by decide)
  have guarded : RecordedRun 3
      (fun state env => SocketContracts state env ∧ PollinAndEnded state env) _ steps _ :=
    run.mono fun _ _ ⟨contracts, ready, ended⟩ => ⟨contracts, ready (by decide), ended⟩
  exact ⟨steps, _, guarded, rfl, entries_fresh guarded⟩

/-- With only an error at the first client, the loop goes on to the entry behind the polled
ones: the error was counted as an event but is not counted off.
-/
theorem entries_not_fresh
    : ∃ steps server,
        RecordedRun 3 (fun state env => SocketContracts state env ∧ EndedAdds state env)
          (startServer ⟨headerOf 0, some []⟩ (.opened []) 4) steps server
        ∧ ¬ ExaminesFresh (polledEntries steps) server := by
  obtain ⟨steps, world, fds, run, two, event⟩ :=
    first_entry_run pollerr (by decide) (by decide)
  have guarded : RecordedRun 3
      (fun state env => SocketContracts state env ∧ EndedAdds state env) _ steps _ :=
    run.mono fun _ _ ⟨contracts, _, ended⟩ => ⟨contracts, ended⟩
  have inside : 1 < maxClients + 1 := by decide
  have unread : (fds ⟨1, inside⟩).readable = false := by
    rw [PollFd.readable, event inside]
    decide
  have passing : pollLoopStep (clientEnv none none) 3 ⟨world, fds, 2, .scan 1 1⟩
      = .ok (⟨world, fds, 2, .scan 2 1⟩, []) := by
    simp only [pollLoopStep, scanStep]
    rw [if_pos ⟨by decide, by decide⟩, dif_pos inside, unread]
    rfl
  refine ⟨steps ++ [⟨_, clientEnv none none, [], ⟨world, fds, 2, .scan 2 1⟩⟩], _,
    guarded.snoc ⟨rfl, rfl, ⟨⟨fun _ impossible => absurd rfl impossible, by rintro _ ⟨⟩⟩,
      endedAdds_of_unread rfl⟩, passing⟩, ?_⟩
  intro fresh
  have below := (fresh 2 1 rfl (le_refl 2) Nat.one_pos).1
  rw [polledEntries, List.foldl_append, ← polledEntries, two] at below
  exact absurd below (lt_irrefl 2)

end LowlevelAcademy.Correctness
