import LowlevelAcademy.Server.PollSet

/-! The invariant of the poll loop: the client table is tidy, `nfds` counts the connected
clients, and within an iteration the pending entries belong to connected clients.
-/

namespace LowlevelAcademy.Server

open LowlevelAcademy.Foundations
open LowlevelAcademy.Database

/-- The loop over the entries stands at entry `i` of the first `polled` ones: the events that
are left are those of the entries not yet visited, each of which belongs to a connected
client of its own.
-/
structure Scanning (states : Clients) (fds : Fds) (i nEvents polled : Nat) : Prop where
  bounded : polled ≤ maxClients + 1
  left : nEvents = pending i polled fds
  ready : ∀ j, j.val < polled → (fds j).revents ≠ 0 → (fds j).readable
  known
    : ∀ j, i ≤ j.val → j.val < polled → ∃ slot, (states slot).fd = (fds j).fd
        ∧ (states slot).fd ≠ -1
  once
    : ∀ j k, i ≤ j.val → i ≤ k.val → j.val < polled → k.val < polled
        → (fds j).fd = (fds k).fd → j = k

/-- The invariant of the poll loop. -/
structure State.Consistent (server : State) : Prop where
  tidy : server.world.clients.Tidy
  count : server.nfds = 1 + server.world.clients.connected.length
  scanning
    : ∀ i nEvents,
        server.position = .scan i nEvents
        → ∃ polled, Scanning server.world.clients server.fds i nEvents polled

/-- The invariant with the number of entries that the last `poll` was given. -/
structure State.ConsistentAt (server : State) (polled : Nat) : Prop where
  tidy : server.world.clients.Tidy
  count : server.nfds = 1 + server.world.clients.connected.length
  scanning
    : ∀ i nEvents,
        server.position = .scan i nEvents
        → Scanning server.world.clients server.fds i nEvents polled

/-- The number of entries that the last `poll` was given, after a step from a state. -/
def State.polledAfter (server : State) (polled : Nat) : Nat :=
  match server.position with
  | .poll => server.nfds
  | .scan _ _ => polled

theorem State.ConsistentAt.consistent {server : State} {polled : Nat}
    (consistent : server.ConsistentAt polled)
    : server.Consistent :=
  ⟨consistent.tidy, consistent.count, fun i nEvents position =>
    ⟨polled, consistent.scanning i nEvents position⟩⟩

theorem State.Consistent.at {server : State} (consistent : server.Consistent)
    : ∃ polled, server.ConsistentAt polled := by
  cases position : server.position with
  | poll => exact ⟨0, consistent.tidy, consistent.count, by simp [position]⟩
  | scan i nEvents =>
      obtain ⟨polled, scanning⟩ := consistent.scanning i nEvents position
      refine ⟨polled, consistent.tidy, consistent.count, ?_⟩
      intro j left same
      obtain ⟨rfl, rfl⟩ := Position.scan.inj (position.symm.trans same)
      exact scanning

theorem startServer_consistent (db : Db) (file : OpenFile UInt8) (listenFd : Int32)
    : (startServer db file listenFd).Consistent := by
  refine ⟨initClients_tidy, ?_, ?_⟩
  · have none : initClients.connected = [] := by
      simp [Clients.connected, initClients]
    simp [startServer, none]
  · simp [startServer]

variable {states states' : Clients} {fds : Fds} {i nEvents polled : Nat}

/-- While events are left, the current entry is polled and exists. -/
theorem Scanning.inside (scanning : Scanning states fds i nEvents polled)
    (more : 0 < nEvents)
    : i < polled ∧ i < maxClients + 1 := by
  have below := pending_pos (scanning.left ▸ more)
  exact ⟨below, lt_of_lt_of_le below scanning.bounded⟩

/-- New connections do not disturb the pending entries. -/
theorem Scanning.mono (scanning : Scanning states fds i nEvents polled)
    (kept : ∀ slot, (states slot).fd ≠ -1 → (states' slot).fd = (states slot).fd)
    : Scanning states' fds i nEvents polled := by
  refine ⟨scanning.bounded, scanning.left, scanning.ready, ?_, scanning.once⟩
  intro j started below
  obtain ⟨slot, same, connected⟩ := scanning.known j started below
  exact ⟨slot, by rw [kept slot connected, same], by rwa [kept slot connected]⟩

/-- An entry without events is passed. -/
theorem Scanning.pass (scanning : Scanning states fds i nEvents polled)
    (inside : i < maxClients + 1) (below : i < polled)
    (none : (fds ⟨i, inside⟩).revents = 0)
    : Scanning states fds (i + 1) nEvents polled := by
  have fewer := pending_succ fds ⟨i, inside⟩ below
  rw [if_neg (not_not.mpr none)] at fewer
  refine ⟨scanning.bounded, by rw [scanning.left, fewer]; rfl, scanning.ready, ?_, ?_⟩
  · exact fun j started => scanning.known j (by omega)
  · exact fun j k first second => scanning.once j k (by omega) (by omega)

/-- An entry with events is visited; its client may be disconnected meanwhile. -/
theorem Scanning.visit (scanning : Scanning states fds i nEvents polled)
    (inside : i < maxClients + 1) (below : i < polled)
    (events : (fds ⟨i, inside⟩).revents ≠ 0)
    (kept
      : ∀ slot, (states slot).fd ≠ (fds ⟨i, inside⟩).fd → (states' slot).fd = (states slot).fd)
    : Scanning states' fds (i + 1) (nEvents - 1) polled := by
  have fewer := pending_succ fds ⟨i, inside⟩ below
  rw [if_pos events] at fewer
  have left := scanning.left
  refine ⟨scanning.bounded, by simp only at fewer; omega, scanning.ready, ?_, ?_⟩
  · intro j started behind
    obtain ⟨slot, same, connected⟩ := scanning.known j (by omega) behind
    have differs : (states slot).fd ≠ (fds ⟨i, inside⟩).fd := by
      intro visited
      have again := scanning.once j ⟨i, inside⟩ (by omega) (le_refl i) behind below
        (same.symm.trans visited)
      subst again
      simp at started
    exact ⟨slot, by rw [kept slot differs, same], by rwa [kept slot differs]⟩
  · exact fun j k first second => scanning.once j k (by omega) (by omega)

/-- A ready entry leads to its client. -/
theorem Scanning.lookup (scanning : Scanning states fds i nEvents polled)
    (tidy : states.Tidy) (inside : i < maxClients + 1) (below : i < polled)
    : ∃ slot,
        findSlotByFd states (fds ⟨i, inside⟩).fd = some slot
        ∧ (states slot).fd = (fds ⟨i, inside⟩).fd
        ∧ (states slot).fd ≠ -1 := by
  obtain ⟨slot, same, connected⟩ := scanning.known ⟨i, inside⟩ (le_refl i) below
  have found := findSlotByFd_unique fun _ same => tidy.distinct connected same
  exact ⟨slot, by rw [← same, found], same, connected⟩

/-- `poll` counts the reported entries. -/
theorem readyCount_report (fds : Fds) (nfds : Nat) (events : Fin (maxClients + 1) → UInt16)
    : readyCount nfds events = pending 0 nfds (fds.report nfds events) := by
  have counted : (List.finRange (maxClients + 1)).countP
      (fun j => j.val < nfds && events j != 0)
      = (Finset.univ.filter fun j : Fin (maxClients + 1) =>
          (decide (j.val < nfds) && events j != 0) = true).card := by
    rw [List.countP_eq_length_filter,
      ← List.toFinset_card_of_nodup ((List.nodup_finRange (maxClients + 1)).filter _)]
    congr 1
    ext j
    simp
  rw [readyCount, counted, pending]
  congr 1
  ext j
  simp only [Finset.mem_filter, Finset.mem_univ, true_and, Fds.report, Bool.and_eq_true,
    decide_eq_true_eq, bne_iff_ne, Nat.zero_le]
  constructor
  · rintro ⟨below, found⟩
    exact ⟨below, by rwa [if_pos below]⟩
  · rintro ⟨below, found⟩
    exact ⟨below, by rwa [if_pos below] at found⟩

/-- The freshly polled entries belong to the connected clients, one each. -/
theorem Scanning.start {server : State} {events : Fin (maxClients + 1) → UInt16}
    {polledFds : Fds} {nEvents : Nat} (consistent : server.Consistent)
    (ready : ∀ j, j.val < server.nfds → events j ≠ 0 → events j &&& pollin ≠ 0)
    (rebuilt
      : polledFds = (rebuildFds server.world.clients (List.finRange maxClients) 1
          server.fds).report server.nfds events)
    (counted
      : nEvents = readyCount server.nfds events - if (polledFds 0).readable then 1 else 0)
    : Scanning server.world.clients polledFds 1 nEvents server.nfds := by
  have count := consistent.count
  have few := server.world.clients.connected_length_le
  have entry (k : Nat) (inside : k < server.world.clients.connected.length)
      : (polledFds ⟨k + 1, by omega⟩).fd
        = (server.world.clients server.world.clients.connected[k]).fd := by
    rw [rebuilt]
    exact rebuildFds_connected server.world.clients server.fds inside
  have place (j : Fin (maxClients + 1)) (behind : 1 ≤ j.val) (below : j.val < server.nfds)
      : ∃ k, ∃ inside : k < server.world.clients.connected.length,
          j.val = k + 1
          ∧ (polledFds j).fd
            = (server.world.clients server.world.clients.connected[k]).fd := by
    refine ⟨j - 1, by omega, by omega, ?_⟩
    rw [← entry (j - 1) (by omega)]
    congr 2
    exact Fin.ext (by simp only; omega)
  have readable (j : Fin (maxClients + 1)) (below : j.val < server.nfds)
      (found : (polledFds j).revents ≠ 0)
      : (polledFds j).readable := by
    simp only [rebuilt, Fds.report, if_pos below] at found
    simpa [PollFd.readable, rebuilt, Fds.report, if_pos below] using ready j below found
  refine ⟨by omega, ?_, readable, ?_, ?_⟩
  · have positive : (0 : Fin (maxClients + 1)).val < server.nfds := by
      change 0 < server.nfds
      omega
    have first : pending 0 server.nfds polledFds
        = pending 1 server.nfds polledFds + if (polledFds 0).revents ≠ 0 then 1 else 0 :=
      pending_succ polledFds 0 positive
    have listening : (polledFds 0).readable ↔ (polledFds 0).revents ≠ 0 := by
      constructor
      · rintro isReadable none
        simp [PollFd.readable, none] at isReadable
      · exact readable 0 positive
    have total : readyCount server.nfds events = pending 0 server.nfds polledFds := by
      rw [rebuilt]
      exact readyCount_report _ _ _
    simp only [listening] at counted
    omega
  · intro j behind below
    obtain ⟨k, inside, -, same⟩ := place j behind below
    exact ⟨_, same.symm, Clients.mem_connected.mp (List.getElem_mem inside)⟩
  · intro j l behindJ behindL belowJ belowL same
    obtain ⟨k, insideK, indexJ, entryJ⟩ := place j behindJ belowJ
    obtain ⟨m, insideM, indexL, entryL⟩ := place l behindL belowL
    rw [entryJ, entryL] at same
    have slots := consistent.tidy.distinct
      (Clients.mem_connected.mp (List.getElem_mem insideM)) same
    have index := (server.world.clients.connected_nodup.getElem_inj_iff).mp slots
    exact Fin.ext (by omega)

-----------------------------------------------------------------------------------------
-- Every step keeps the invariant
-----------------------------------------------------------------------------------------

variable {env : Env} {dbfd : Nat} {server next : State} {actions : List Action}

/-- Starting an iteration keeps the invariant, whether or not a connection is accepted. -/
private theorem State.Consistent.pollStep (consistent : server.Consistent)
    (fresh : FreshAccept server env) (ready : PolledPollin server env)
    (result : Server.pollStep env server = .ok (next, actions))
    : next.ConsistentAt server.nfds := by
  obtain ⟨events, fds, nEvents, reported, rebuilt, counted, outcome⟩ := pollStep_cases result
  have scanning := Scanning.start consistent (ready events reported) rebuilt counted
  rcases outcome with ⟨rfl, -⟩ | ⟨rfl, -⟩ | ⟨slot, free, valid, rfl, -⟩
  · exact ⟨consistent.tidy, consistent.count, by simp⟩
  · refine ⟨consistent.tidy, consistent.count, ?_⟩
    rintro _ _ ⟨⟩
    exact scanning
  · have isFree := findFreeSlot_some free
    obtain ⟨tidy, count⟩ := consistent.tidy.connect (server.world.clients slot).buffer
      isFree valid fun other => fresh other valid
    refine ⟨tidy, ?_, ?_⟩
    · change server.nfds + 1 = 1 + (Clients.connected (Function.update _ _ _)).length
      rw [count, consistent.count, Nat.add_assoc]
    · rintro _ _ ⟨⟩
      refine scanning.mono ?_
      intro other connected
      have differs : other ≠ slot := fun same => connected (same ▸ isFree)
      simp [World.connect, Function.update_of_ne differs]

/-- Serving the client of a ready entry keeps the invariant, whether it is disconnected or a
message is handled.
-/
private theorem State.ConsistentAt.serve {polled : Nat}
    (consistent : server.ConsistentAt polled) {i nEvents : Nat}
    {slot : Slot} {world : World} {nfds : Nat}
    (position : server.position = .scan i nEvents) (inside : i < maxClients + 1)
    (more : i ≤ server.nfds ∧ 0 < nEvents) (readable : (server.fds ⟨i, inside⟩).readable)
    (found : findSlotByFd server.world.clients (server.fds ⟨i, inside⟩).fd = some slot)
    (ended : EndedAdds server env)
    (served : serveClient env dbfd server.world server.nfds slot = .ok (world, nfds, actions))
    : State.ConsistentAt ⟨world, server.fds, nfds, .scan (i + 1) (nEvents - 1)⟩ polled := by
  have scanning := consistent.scanning i nEvents position
  obtain ⟨below, -⟩ := scanning.inside more.2
  have events : (server.fds ⟨i, inside⟩).revents ≠ 0 := by
    intro none
    simp [PollFd.readable, none] at readable
  have client := findSlotByFd_some found
  obtain ⟨other, again, -, connected⟩ := scanning.lookup consistent.tidy inside below
  obtain rfl := Option.some.inj (found.symm.trans again)
  rcases serveClient_cases served with ⟨-, rfl, rfl, -⟩ | ⟨chunk, later, received, handled, rfl, -⟩
  · obtain ⟨tidy, count⟩ := consistent.tidy.disconnect connected
    refine ⟨tidy, ?_, ?_⟩
    · change server.nfds - 1 = 1 + (Clients.connected (Function.update _ _ _)).length
      have before := consistent.count
      omega
    · rintro _ _ ⟨⟩
      refine scanning.visit inside below events fun remaining differs => ?_
      have notServed : remaining ≠ slot := fun same => differs (same ▸ client)
      simp [World.disconnect, Function.update_of_ne notServed]
  · have reading := (State.reading_of_scan server position inside more readable).trans found
    obtain ⟨state, buffer, same, outcome⟩ :=
      handled.clients (ended slot reading chunk received)
    rw [World.receive_setClient] at same
    rw [World.receive_state] at outcome
    have active : state = .hello ∨ state = .msg := by
      split_ifs at outcome
      · exact Or.inr outcome
      · exact outcome ▸ (consistent.tidy.active slot).mp connected
    obtain ⟨tidy, kept⟩ := consistent.tidy.setClient buffer connected active
    refine ⟨same ▸ tidy, ?_, ?_⟩
    · rw [consistent.count]
      change 1 + _ = 1 + world.clients.connected.length
      rw [same, World.setClient, Clients.connected_congr kept]
    · rintro _ _ ⟨⟩
      refine scanning.visit inside below events fun remaining _ => ?_
      rw [same]
      exact kept remaining

/-- Every step whose system calls behave and whose add strings end inside their buffer keeps
the invariant, with the entries that were polled.
-/
theorem State.ConsistentAt.step {polled : Nat} (consistent : server.ConsistentAt polled)
    (fresh : FreshAccept server env) (ready : PolledPollin server env)
    (ended : EndedAdds server env)
    (result : pollLoopStep env dbfd server = .ok (next, actions))
    : next.ConsistentAt (server.polledAfter polled) := by
  simp only [pollLoopStep] at result
  split at result
  · next position =>
    simp only [State.polledAfter, position]
    exact consistent.consistent.pollStep fresh ready result
  next i nEvents position =>
  simp only [State.polledAfter, position]
  rcases scanStep_cases result with
      ⟨rfl, -⟩
      | ⟨inside, more, ⟨silent, rfl, -⟩ | ⟨slot, world, nfds, readable, found, served, rfl⟩⟩
  · exact ⟨consistent.tidy, consistent.count, by simp⟩
  · have scanning := consistent.scanning i nEvents position
    obtain ⟨below, -⟩ := scanning.inside more.2
    have none : (server.fds ⟨i, inside⟩).revents = 0 := by
      by_contra events
      simp [scanning.ready ⟨i, inside⟩ below events] at silent
    refine ⟨consistent.tidy, consistent.count, ?_⟩
    rintro _ _ ⟨⟩
    exact scanning.pass inside below none
  · exact consistent.serve position inside more readable found ended served

/-- Every such step keeps the invariant of the loop. -/
theorem State.Consistent.step (consistent : server.Consistent)
    (fresh : FreshAccept server env) (ready : ReadyPollin server env)
    (ended : EndedAdds server env)
    (result : pollLoopStep env dbfd server = .ok (next, actions))
    : next.Consistent := by
  obtain ⟨polled, kept⟩ := consistent.at
  have polledReady : PolledPollin server env :=
    fun events reported j _ => ready events reported j
  exact (kept.step fresh polledReady ended result).consistent

/-- The invariant along a run whose system calls behave and whose add strings end inside their
buffer, by the step lemma.
-/
theorem State.Consistent.run {guard : Guard} {history : List (List Action)}
    (consistent : server.Consistent)
    (guarded
      : ∀ state env,
          guard state env → FreshAccept state env ∧ ReadyPollin state env ∧ EndedAdds state env)
    (run : Run (Step dbfd guard) server history next)
    : next.Consistent := by
  refine Run.stateInvariant consistent ?_ run
  rintro state actions after kept ⟨env, allowed, result⟩
  obtain ⟨fresh, ready, ended⟩ := guarded state env allowed
  exact kept.step fresh ready ended result

-----------------------------------------------------------------------------------------
-- The clients that an iteration still has to visit
-----------------------------------------------------------------------------------------

/-- `poll` reports the entry of a connected client as ready. -/
def State.Reported (server : State) (env : Env) (slot : Slot) : Prop :=
  (server.world.clients slot).fd ≠ -1
  ∧ ∃ events ∈ env.poll, ∃ j : Fin (maxClients + 1),
      1 ≤ j.val
      ∧ j.val < server.nfds
      ∧ events j ≠ 0
      ∧ (rebuildFds server.world.clients (List.finRange maxClients) 1 server.fds j).fd
        = (server.world.clients slot).fd

/-- The loop over the entries has still to visit the ready entry of a connected client. -/
def State.Visits (server : State) (polled : Nat) (slot : Slot) : Prop :=
  (server.world.clients slot).fd ≠ -1
  ∧ ∃ i nEvents, server.position = .scan i nEvents
    ∧ ∃ j : Fin (maxClients + 1),
        i ≤ j.val
        ∧ j.val < polled
        ∧ (server.fds j).revents ≠ 0
        ∧ (server.fds j).fd = (server.world.clients slot).fd

variable {polled : Nat} {slot : Slot}

/-- The client that is read from is one of those still to be visited. -/
theorem State.ConsistentAt.visits_of_reading (consistent : server.ConsistentAt polled)
    (reading : server.reading = some slot)
    : server.Visits polled slot := by
  simp only [State.reading] at reading
  split at reading
  · cases reading
  next i nEvents position =>
  split_ifs at reading with more inside readable
  have scanning := consistent.scanning i nEvents position
  obtain ⟨below, -⟩ := scanning.inside more.2
  obtain ⟨other, again, -, connected⟩ := scanning.lookup consistent.tidy inside below
  obtain rfl := Option.some.inj (reading.symm.trans again)
  refine ⟨connected, i, nEvents, position, ⟨i, inside⟩, le_refl i, below, ?_, ?_⟩
  · intro none
    simp [PollFd.readable, none] at readable
  · exact (findSlotByFd_some reading).symm

/-- Polling reports the clients that are to be visited; a connection that is accepted at the same
time is not among them.
-/
private theorem State.ConsistentAt.visits_of_poll (consistent : server.ConsistentAt polled)
    (fresh : FreshAccept server env) (ready : PolledPollin server env)
    (result : Server.pollStep env server = .ok (next, actions))
    (visits : next.Visits server.nfds slot)
    : server.Reported env slot := by
  obtain ⟨connected, i, nEvents, position, j, behind, below, events, sameFd⟩ := visits
  obtain ⟨reported, fds, left, polling, rebuilt, counted, outcome⟩ := pollStep_cases result
  have scanning := Scanning.start consistent.consistent (ready reported polling) rebuilt counted
  have entry : (fds j).fd
      = (rebuildFds server.world.clients (List.finRange maxClients) 1 server.fds j).fd := by
    rw [rebuilt, Fds.report]
  have found (shown : (fds j).revents ≠ 0) : reported j ≠ 0 := by
    rwa [rebuilt, Fds.report, if_pos below] at shown
  rcases outcome with ⟨rfl, -⟩ | ⟨rfl, -⟩ | ⟨opened, free, valid, rfl, -⟩
  · cases position
  · obtain ⟨rfl, -⟩ := Position.scan.inj position
    exact ⟨connected, reported, polling, j, behind, below, found events, entry ▸ sameFd⟩
  · obtain ⟨rfl, -⟩ := Position.scan.inj position
    have others : slot ≠ opened := by
      rintro rfl
      obtain ⟨owner, same, owned⟩ := scanning.known j behind below
      have accepted : (fds j).fd = env.accept := by
        simpa [World.connect] using sameFd
      exact fresh owner valid (same.trans accepted)
    have kept : ((server.world.connect opened env.accept).clients slot)
        = server.world.clients slot :=
      World.connect_other others _
    simp only [kept] at connected sameFd
    exact ⟨connected, reported, polling, j, behind, below, found events, entry ▸ sameFd⟩

/-- Whoever is to be visited behind a step was reported by it or was to be visited before it, and
is not the one that was read from.
-/
theorem State.ConsistentAt.visits_step (consistent : server.ConsistentAt polled)
    (fresh : FreshAccept server env) (ready : PolledPollin server env)
    (ended : EndedAdds server env)
    (result : pollLoopStep env dbfd server = .ok (next, actions))
    (visits : next.Visits (server.polledAfter polled) slot)
    : (server.Reported env slot ∨ server.Visits polled slot) ∧ server.reading ≠ some slot := by
  simp only [pollLoopStep] at result
  split at result
  · next position =>
    simp only [State.polledAfter, position] at visits
    exact ⟨Or.inl (consistent.visits_of_poll fresh ready result visits),
      by simp [State.reading, position]⟩
  next i nEvents position =>
  simp only [State.polledAfter, position] at visits
  obtain ⟨connected, i', left, position', j, behind, below, events, sameFd⟩ := visits
  rcases scanStep_cases result with
      ⟨rfl, -⟩
      | ⟨inside, more, ⟨silent, rfl, -⟩ | ⟨served, world, nfds, readable, found, serving, rfl⟩⟩
  · cases position'
  · obtain ⟨rfl, -⟩ := Position.scan.inj position'
    refine ⟨Or.inr ⟨connected, i, nEvents, position, j, by omega, below, events, sameFd⟩, ?_⟩
    simp [State.reading, position, silent]
  · obtain ⟨rfl, -⟩ := Position.scan.inj position'
    have scanning := consistent.scanning i nEvents position
    obtain ⟨before, -⟩ := scanning.inside more.2
    have reading := (State.reading_of_scan server position inside more readable).trans found
    have client := findSlotByFd_some found
    -- the entry that was served is not visited again
    have differs (same : (server.fds j).fd = (server.world.clients served).fd) : False := by
      have again := scanning.once j ⟨i, inside⟩ (by omega) (le_refl i) below before
        (same.trans client)
      subst again
      simp at behind
    have kept : slot ≠ served
        ∧ (world.clients slot).fd = (server.world.clients slot).fd := by
      rcases serveClient_cases serving with
          ⟨-, rfl, -, -⟩ | ⟨chunk, later, received, handled, -, -⟩
      · have others : slot ≠ served := by
          rintro rfl
          simp [World.disconnect] at connected
        exact ⟨others, congrArg ClientState.fd (World.disconnect_other others)⟩
      · obtain ⟨state, buffer, same, -⟩ :=
          handled.clients (ended served reading chunk received)
        rw [World.receive_setClient] at same
        have sameFds : (world.clients slot).fd = (server.world.clients slot).fd := by
          rw [same]
          by_cases own : slot = served
          · rw [own, World.setClient_self]
          · rw [World.setClient_other own]
        refine ⟨?_, sameFds⟩
        rintro rfl
        exact differs (sameFd.trans sameFds)
    obtain ⟨others, sameFds⟩ := kept
    simp only [sameFds] at connected sameFd
    refine ⟨Or.inr ⟨connected, i, nEvents, position, j, by omega, below, events, sameFd⟩, ?_⟩
    rw [reading]
    exact fun same => others (Option.some.inj same).symm

end LowlevelAcademy.Server
