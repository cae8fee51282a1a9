import LowlevelAcademy.Server.Consistency

/-! Which ready clients an iteration leaves unread. A disconnect shortens the loop over the
entries, so the last ones can be cut off; a cut-off client stays ready, and the clients that
are left are fewer.
-/

namespace LowlevelAcademy.Server

open LowlevelAcademy.Foundations

/-- `accept` returns a descriptor whenever the listening socket is reported. -/
def Accepting : Guard := fun _ env =>
  ∀ events ∈ env.poll, events ⟨0, Nat.succ_pos _⟩ ≠ 0 → env.accept ≠ -1

variable {env : Env} {dbfd : Nat} {server next : State} {actions : List Action}
variable {polled : Nat} {slot : Slot}

/-- Whenever `poll` succeeds, the iteration starts. -/
theorem pollLoopStep_polled {events : Fin (maxClients + 1) → UInt16} (dbfd : Nat)
    (position : server.position = .poll) (polling : env.poll = some events)
    : ∃ result, pollLoopStep env dbfd server = .ok result := by
  simp only [pollLoopStep, position, pollStep, polling]
  split_ifs
  · exact ⟨_, rfl⟩
  · split <;> exact ⟨_, rfl⟩
  · exact ⟨_, rfl⟩

/-- An iteration goes back to its start at once only when `accept` fails on the listening socket.
-/
theorem pollStep_again (result : pollStep env server = .ok (next, actions))
    (again : next.position = .poll) (positive : 0 < server.nfds)
    : env.accept = -1 ∧ ∃ events ∈ env.poll, events 0 ≠ 0 := by
  simp only [pollStep] at result
  split at result
  · cases result
  next events polling =>
  split_ifs at result with listening failed
  · refine ⟨failed, events, polling, fun none => ?_⟩
    simp [PollFd.readable, Fds.report, positive, none] at listening
  · split at result <;> cases result <;> cases again
  · cases result
    cases again

/-- The loop over the entries ends when its index is behind `nfds` or no event is left. -/
theorem scanStep_ends {i nEvents : Nat}
    (result : scanStep env dbfd server i nEvents = .ok (next, actions))
    (again : next.position = .poll)
    : ¬ (i ≤ server.nfds ∧ 0 < nEvents) := by
  intro within
  simp only [scanStep, if_pos within] at result
  split_ifs at result
  · split at result
    · cases result
    split at result
    · cases result
    · cases result
      cases again
  · cases result
    cases again

/-- After a rebuild every connected client has an entry behind the listening socket's. -/
theorem State.Consistent.entry (consistent : server.Consistent)
    (connected : (server.world.clients slot).fd ≠ -1)
    : ∃ j : Fin (maxClients + 1),
        1 ≤ j.val
        ∧ j.val < server.nfds
        ∧ (rebuildFds server.world.clients (List.finRange maxClients) 1 server.fds j).fd
          = (server.world.clients slot).fd := by
  obtain ⟨index, inside, found⟩ :=
    List.mem_iff_getElem.mp (Clients.mem_connected.mpr connected)
  have few := server.world.clients.connected_length_le
  have count := consistent.count
  refine ⟨⟨index + 1, by omega⟩, Nat.le_add_left 1 index, by simp only; omega, ?_⟩
  rw [← found]
  exact rebuildFds_connected server.world.clients server.fds inside

/-- A client is reported when every entry is ready. -/
theorem State.Consistent.reported (consistent : server.Consistent)
    (connected : (server.world.clients slot).fd ≠ -1) (all : env.poll = some fun _ => pollin)
    : server.Reported env slot := by
  obtain ⟨j, behind, below, same⟩ := consistent.entry connected
  exact ⟨connected, _, all, j, behind, below, by decide, same⟩

/-- A client that `poll` reports is to be visited in this iteration, unless `accept` fails. -/
theorem State.visits_of_reported (accepting : Accepting server env)
    (position : server.position = .poll) (reported : server.Reported env slot)
    (result : pollLoopStep env dbfd server = .ok (next, actions))
    : next.Visits server.nfds slot := by
  rw [pollLoopStep, position] at result
  obtain ⟨connected, events, polling, j, behind, below, ready, sameFd⟩ := reported
  obtain ⟨events', fds, nEvents, polling', rebuilt, -, outcome⟩ := pollStep_cases result
  obtain rfl := Option.some.inj (polling.symm.trans polling')
  have entry : (fds j).revents ≠ 0 ∧ (fds j).fd = (server.world.clients slot).fd := by
    rw [rebuilt, Fds.report, if_pos below]
    exact ⟨ready, sameFd⟩
  rcases outcome with ⟨rfl, -⟩ | ⟨rfl, -⟩ | ⟨opened, free, -, rfl, -⟩
  · have positive : 0 < server.nfds := lt_of_le_of_lt (Nat.zero_le _) below
    obtain ⟨failed, events', polling', listening⟩ := pollStep_again result rfl positive
    exact absurd failed (accepting events' polling' listening)
  · exact ⟨connected, 1, nEvents, rfl, j, behind, below, entry⟩
  · have others : slot ≠ opened := fun same => connected (same ▸ findFreeSlot_some free)
    have kept : (server.world.connect opened env.accept).clients slot
        = server.world.clients slot :=
      World.connect_other others _
    exact ⟨by rwa [kept], 1, nEvents, rfl, j, behind, below, entry.1, by rw [kept]; exact entry.2⟩

/-- A client that is to be visited and not read from is still to be visited after the step, or
the step ends the loop. Then so many clients were disconnected that fewer are left than were
polled, by two at least.
-/
theorem State.ConsistentAt.visits_kept (consistent : server.ConsistentAt polled)
    (visits : server.Visits polled slot) (unread : server.reading ≠ some slot)
    (ended : EndedAdds server env)
    (result : pollLoopStep env dbfd server = .ok (next, actions))
    : next.Visits polled slot
      ∨ (next.position = .poll
        ∧ next.world = server.world
        ∧ server.world.clients.connected.length + 3 ≤ polled) := by
  obtain ⟨connected, i, nEvents, position, j, behind, below, events, sameFd⟩ := visits
  have scanning := consistent.scanning i nEvents position
  have more : 0 < nEvents := by
    rw [scanning.left, pending, Finset.card_pos]
    exact ⟨j, by simp [behind, below, events]⟩
  rw [pollLoopStep, position] at result
  change scanStep env dbfd server i nEvents = _ at result
  rcases scanStep_cases result with
      ⟨rfl, -⟩
      | ⟨inside, within, ⟨silent, rfl, -⟩ | ⟨served, world, nfds, readable, found, serving, rfl⟩⟩
  · have stopped := scanStep_ends result rfl
    have count := consistent.count
    have left : server.nfds < i := by omega
    exact Or.inr ⟨rfl, rfl, by omega⟩
  · have passed : i ≠ j.val := by
      rintro rfl
      simp [scanning.ready j below events] at silent
    exact Or.inl ⟨connected, i + 1, nEvents, rfl, j, by omega, below, events, sameFd⟩
  · have reading := (State.reading_of_scan server position inside within readable).trans found
    have client := findSlotByFd_some found
    have others : slot ≠ served := fun same => unread (same ▸ reading)
    have passed : i ≠ j.val := by
      rintro rfl
      exact others (consistent.tidy.distinct connected (client.trans sameFd)).symm
    have kept : (world.clients slot).fd = (server.world.clients slot).fd := by
      rcases serveClient_cases serving with
          ⟨-, rfl, -, -⟩ | ⟨chunk, later, received, handled, -, -⟩
      · exact congrArg ClientState.fd (World.disconnect_other others)
      · obtain ⟨state, buffer, same, -⟩ :=
          handled.clients (ended served reading chunk received)
        rw [same, World.receive_setClient, World.setClient_other others]
    exact Or.inl ⟨by rwa [kept], i + 1, nEvents - 1, rfl, j, by omega, below, events,
      by rw [kept]; exact sameFd⟩

end LowlevelAcademy.Server
