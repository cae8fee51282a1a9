import LowlevelAcademy.Correctness.SlotTable
import LowlevelAcademy.Server.Fairness

/-! How long a ready client waits. A client that every `poll` reports is passed over a bounded
number of times, however the others behave, as long as `accept` does not fail.
-/

namespace LowlevelAcademy.Correctness

open LowlevelAcademy.Foundations
open LowlevelAcademy.Database
open LowlevelAcademy.Server

/-- A step, labelled with whether it starts an iteration. -/
def PollingStep (dbfd : Nat) (guard : Guard) (server : State) (polls : Bool) (next : State)
    : Prop :=
  polls = decide (server.position = .poll) ∧ ∃ actions, Step dbfd guard server actions next

/-- Behaving system calls under which a client stays unread: every `poll` reports it, and no
step reads from it.
-/
structure Bypasses (slot : Slot) (server : State) (env : Env) : Prop where
  fresh : FreshAccept server env
  ready : PolledPollin server env
  ended : EndedAdds server env
  accepting : Accepting server env
  reported : server.position = .poll → server.Reported env slot
  unread : server.reading ≠ some slot

/-- Where a waiting client stands after `polls` iterations were started, of which every one that
ended has left two clients fewer: `budget` clients were connected at first.
-/
structure Waits (slot : Slot) (budget polls : Nat) (server : State) (polled : Nat) : Prop where
  consistent : server.ConsistentAt polled
  connected : (server.world.clients slot).fd ≠ -1
  atStart
    : server.position = .poll → 2 * polls + server.world.clients.connected.length ≤ budget
  within
    : server.position ≠ .poll
      → server.Visits polled slot ∧ 2 ≤ polled ∧ 2 * polls + polled ≤ budget + 3

variable {dbfd : Nat} {server next : State} {slot : Slot} {budget polls polled : Nat}

/-- A connected client is one of those that are counted. -/
theorem connected_pos {states : Clients} (connected : (states slot).fd ≠ -1)
    : 0 < states.connected.length :=
  List.length_pos_of_mem (Clients.mem_connected.mpr connected)

/-- A waiting client has used up at most half of the budget. -/
theorem Waits.bound (waits : Waits slot budget polls server polled) : 2 * polls ≤ budget + 1 := by
  by_cases position : server.position = .poll
  · have start := waits.atStart position
    have one := connected_pos waits.connected
    omega
  · obtain ⟨-, two, within⟩ := waits.within position
    omega

/-- Every step that does not read from the client keeps it waiting within the budget. -/
theorem Waits.step {starts : Bool} (waits : Waits slot budget polls server polled)
    (step : PollingStep dbfd (Bypasses slot) server starts next)
    : Waits slot budget (polls + starts.toNat) next (server.polledAfter polled) := by
  obtain ⟨rfl, actions, env, bypasses, result⟩ := step
  have consistent := waits.consistent.step bypasses.fresh bypasses.ready bypasses.ended result
  by_cases position : server.position = .poll
  · -- the iteration starts, and the client is reported
    have visits :=
      State.visits_of_reported bypasses.accepting position (bypasses.reported position) result
    have same : server.polledAfter polled = server.nfds := by
      simp [State.polledAfter, position]
    have start := waits.atStart position
    have one := connected_pos waits.connected
    have count := waits.consistent.count
    rw [same] at consistent ⊢
    refine ⟨consistent, visits.1, fun again => ?_, fun _ => ⟨visits, by omega, ?_⟩⟩
    · obtain ⟨-, i, nEvents, scans, -⟩ := visits
      cases again.symm.trans scans
    · simp only [position, decide_true, Bool.toNat_true]
      omega
  · -- the loop goes on, or it ends in front of the client's entry
    obtain ⟨visits, two, within⟩ := waits.within position
    have same : server.polledAfter polled = polled := by
      obtain ⟨-, i, nEvents, scans, -⟩ := visits
      simp [State.polledAfter, scans]
    rw [same] at consistent ⊢
    simp only [position, decide_false, Bool.toNat_false, Nat.add_zero]
    rcases waits.consistent.visits_kept visits bypasses.unread bypasses.ended result with
        kept | ⟨again, world, fewer⟩
    · refine ⟨consistent, kept.1, fun again => ?_, fun _ => ⟨kept, two, within⟩⟩
      obtain ⟨-, i, nEvents, scans, -⟩ := kept
      cases again.symm.trans scans
    · refine ⟨consistent, by rw [world]; exact waits.connected, fun _ => ?_,
        fun scans => absurd again scans⟩
      rw [world]
      omega

/-- Along a run that never reads from the client it waits within the budget. -/
theorem waits_run {history : List Bool} (consistent : server.Consistent)
    (position : server.position = .poll) (connected : (server.world.clients slot).fd ≠ -1)
    (run : Run (PollingStep dbfd (Bypasses slot)) server history next)
    : ∃ polled,
        Waits slot server.world.clients.connected.length (history.count true) next polled := by
  refine run.invariant (motive := fun history next => ∃ polled,
    Waits slot server.world.clients.connected.length (history.count true) next polled) ?_ ?_
  · obtain ⟨polled, consistentAt⟩ := consistent.at
    exact ⟨polled, consistentAt, connected, by simp, fun scans => absurd position scans⟩
  · rintro history state starts after ⟨polled, waits⟩ step
    refine ⟨state.polledAfter polled, ?_⟩
    have counted : (history ++ [starts]).count true = history.count true + starts.toNat := by
      cases starts <;> simp
    rw [counted]
    exact waits.step step

/-- No starvation: while the system calls behave, `accept` does not fail and a client that every
`poll` reports is not read from, at most half as many iterations are started as clients were
connected when it began to wait, rounded up; so it is read from within 128 iterations. The others
may connect and disconnect, and send what ends inside their buffers.
-/
theorem client_waits_boundedly {db : Db} {file : OpenFile UInt8} {listenFd : Int32}
    {earlier : List (List Action)} {history : List Bool}
    (reached
      : Run (Step dbfd fun state env => SocketsBehave state env ∧ EndedAdds state env)
          (startServer db file listenFd) earlier server)
    (position : server.position = .poll)
    (run : Run (PollingStep dbfd (Bypasses slot)) server history next)
    (connected : (server.world.clients slot).fd ≠ -1)
    : 2 * history.count true ≤ server.world.clients.connected.length + 1
      ∧ history.count true ≤ 128 := by
  have consistent := (startServer_consistent db file listenFd).run
    (fun _ _ allowed => ⟨allowed.1.1, allowed.1.2, allowed.2⟩) reached
  obtain ⟨polled, waits⟩ := waits_run consistent position connected run
  have bound := waits.bound
  have few := server.world.clients.connected_length_le
  simp only [maxClients] at few
  exact ⟨bound, by omega⟩

/-- All entries are ready, but `accept` returns nothing. -/
def fullEnv (accept : Int32) : Env where
  poll := some fun _ => pollin
  accept := accept
  read := none
  realloc := none
  writes := fun _ => .complete

theorem sockets_of_orderly (state : State) (env : Env) (orderly : Orderly state env)
    : SocketsBehave state env ∧ EndedAdds state env :=
  ⟨⟨orderly.fresh, orderly.ready⟩, orderly.ended⟩

/-- A greeted client is reported while another connection comes in. -/
theorem client_waits_boundedly_once
    : ∃ server next,
        (server.world.clients 0).fd = 5
        ∧ Run (PollingStep 3 (Bypasses 0)) server [true] next
        ∧ 2 * [true].count true ≤ server.world.clients.connected.length + 1 := by
  obtain ⟨buffer, fds, history, orderly, -⟩ := first_client_run 3 ⟨headerOf 0, some []⟩
    (.opened []) 4 (show (5 : Int32) ≠ -1 by decide)
  generalize same : (⟨⟨Function.update initClients 0 ⟨5, .msg, buffer⟩, ⟨headerOf 0, some []⟩,
    .opened []⟩, fds, 2, .poll⟩ : State) = server at orderly
  have first : (server.world.clients 0).fd = 5 := by simp [← same]
  have position : server.position = .poll := by rw [← same]
  have consistent := (startServer_consistent _ _ _).run_orderly orderly
  have connected : (server.world.clients 0).fd ≠ -1 := by
    rw [first]
    decide
  have going : ∃ result, pollLoopStep (fullEnv 7) 3 server = .ok result :=
    pollLoopStep_polled 3 position rfl
  obtain ⟨⟨next, actions⟩, result⟩ := going
  have bypasses : Bypasses 0 server (fullEnv 7) := by
    refine ⟨fun slot _ => ?_, ?_, ?_, ?_, fun _ => consistent.reported connected rfl, ?_⟩
    · rw [← same]
      by_cases own : slot = 0 <;> simp [own, initClients] <;> decide
    · rintro _ ⟨⟩ j - -
      change pollin &&& pollin ≠ 0
      decide
    · rintro slot _ _ ⟨⟩
    · rintro _ ⟨⟩ -
      decide
    · simp [State.reading, position]
  have run : Run (PollingStep 3 (Bypasses 0)) server [true] next :=
    .single ⟨by simp [position], actions, _, bypasses, result⟩
  have reached := run_of_orderly sockets_of_orderly orderly
  exact ⟨server, next, first, run, (client_waits_boundedly reached position run connected).1⟩

-----------------------------------------------------------------------------------------
-- While `accept` fails
-----------------------------------------------------------------------------------------

/-- The listening socket is ready in every iteration, and `accept` fails. -/
def AcceptFails : Guard := fun server env =>
  env.accept = -1
  ∧ (server.position = .poll
    → ∃ events ∈ env.poll, events ⟨0, Nat.succ_pos _⟩ &&& pollin ≠ 0)

/-- Every connected client is reported in every iteration. -/
def AllReported : Guard := fun server env =>
  ∀ slot, (server.world.clients slot).fd ≠ -1 → server.Reported env slot

/-- An iteration in which `accept` fails starts again with the clients as they are. -/
theorem pollLoopStep_acceptFails {env : Env} (dbfd : Nat) (position : server.position = .poll)
    (positive : 0 < server.nfds) (fails : AcceptFails server env)
    : ∃ fds, pollLoopStep env dbfd server = .ok (⟨server.world, fds, server.nfds, .poll⟩, []) := by
  obtain ⟨failed, reported⟩ := fails
  obtain ⟨events, polling, ready⟩ := reported position
  let fds := (rebuildFds server.world.clients (List.finRange maxClients) 1 server.fds).report
    server.nfds events
  have ready : events 0 &&& pollin ≠ 0 := ready
  have listening : (fds 0).readable := by
    simp [fds, PollFd.readable, Fds.report, positive, ready]
  refine ⟨fds, ?_⟩
  rw [pollLoopStep, position]
  simp only [pollStep, Option.mem_def.mp polling]
  rw [if_pos listening, if_pos failed]

/-- From the start of an iteration on, while the listening socket is ready and `accept` fails,
every iteration starts again without reading from any client; there are such runs of every length
in which every client is reported in every iteration. So a server that cannot accept serves no
one.
-/
theorem failing_accept_starves {db : Db} {file : OpenFile UInt8} {listenFd : Int32}
    {earlier : List (List Action)}
    (reached
      : Run (Step dbfd fun state env => SocketsBehave state env ∧ EndedAdds state env)
          (startServer db file listenFd) earlier server)
    (position : server.position = .poll)
    : (∀ history next,
        Run (Step dbfd AcceptFails) server history next
        → next.position = .poll ∧ next.world = server.world ∧ history.flatten = [])
      ∧ ∀ n, ∃ history next,
          Run (Step dbfd fun state env => AcceptFails state env ∧ AllReported state env) server
            history next
          ∧ history.length = n := by
  have consistent := (startServer_consistent db file listenFd).run
    (fun _ _ allowed => ⟨allowed.1.1, allowed.1.2, allowed.2⟩) reached
  have count := consistent.count
  constructor
  · intro history next run
    have kept := run.invariant
      (motive := fun history next =>
        next.position = .poll
        ∧ next.world = server.world
        ∧ next.nfds = server.nfds
        ∧ history.flatten = [])
      ⟨position, rfl, rfl, rfl⟩ ?_
    · exact ⟨kept.1, kept.2.1, kept.2.2.2⟩
    · rintro history state actions after ⟨start, world, nfds, quiet⟩ ⟨env, fails, result⟩
      obtain ⟨fds, again⟩ := pollLoopStep_acceptFails dbfd start (by omega) fails
      obtain ⟨rfl, rfl⟩ := Prod.mk.inj (Except.ok.inj (result.symm.trans again))
      exact ⟨rfl, world, nfds, by simp [quiet]⟩
  · intro n
    have kept : ∃ history next,
        Run (Step dbfd fun state env => AcceptFails state env ∧ AllReported state env) server
          history next
        ∧ history.length = n
        ∧ next.position = .poll
        ∧ next.Consistent := by
      induction n with
      | zero => exact ⟨[], server, .nil, rfl, position, consistent⟩
      | succ n ih =>
          obtain ⟨history, state, run, length, start, sound⟩ := ih
          have positive := sound.count
          have fails : AcceptFails state (fullEnv (-1)) :=
            ⟨rfl, fun _ => ⟨_, rfl, by decide⟩⟩
          obtain ⟨fds, again⟩ := pollLoopStep_acceptFails dbfd start (by omega) fails
          refine ⟨history ++ [[]], _, run.snoc ⟨fullEnv (-1), ⟨fails, fun slot connected =>
            sound.reported connected rfl⟩, again⟩, by simp [length], rfl, ?_⟩
          exact ⟨sound.tidy, sound.count, by simp⟩
    obtain ⟨history, next, run, length, -⟩ := kept
    exact ⟨history, next, run, length⟩

/-- With one client connected, a hundred iterations can go by. -/
theorem failing_accept_starves_hundred
    : ∃ server history next,
        (server.world.clients 0).fd = 5
        ∧ Run (Step 3 fun state env => AcceptFails state env ∧ AllReported state env) server
            history next
        ∧ history.length = 100 := by
  obtain ⟨buffer, fds, history, orderly, -⟩ := first_client_run 3 ⟨headerOf 0, some []⟩
    (.opened []) 4 (show (5 : Int32) ≠ -1 by decide)
  have reached := run_of_orderly sockets_of_orderly orderly
  obtain ⟨waiting, next, run, length⟩ := (failing_accept_starves reached rfl).2 100
  exact ⟨_, waiting, next, by simp, run, length⟩

end LowlevelAcademy.Correctness
