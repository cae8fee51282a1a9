import LowlevelAcademy.Network.Standing

/-! The invariant of the system: the server's loop is consistent, its database holds what was
accepted, and every client stands somewhere in its session.
-/

namespace LowlevelAcademy.Network

open LowlevelAcademy.Foundations
open LowlevelAcademy.Database
open LowlevelAcademy.Server
open LowlevelAcademy.Client

variable {ι : Type*} [DecidableEq ι]

/-- What every run of the system keeps up. A client that the loop still has to visit can be read
from, and no two clients share a slot.
-/
structure Sound (args : ι → Args) (records : List Employee) (history : List (Event ι))
    (sys : System ι) (polled : Nat)
    : Prop where
  loop : sys.server.ConsistentAt polled
  holds : sys.server.world.db.Holds (stored records history)
  readable : ∀ slot, sys.server.Visits polled slot → sys.Readable slot
  apart
    : ∀ first second slot,
        (sys.sessions first).link = .accepted slot
        → (sys.sessions second).link = .accepted slot
        → first = second
  standing
    : ∀ client,
        Standing (args client) records history client sys.server.world.clients
          (sys.sessions client)

theorem startSystem_sound (args : ι → Args) {records : List Employee} {db : Db}
    (file : OpenFile UInt8) (listenFd : Int32) (holds : db.Holds records)
    : ∃ polled, Sound args records [] (startSystem ι db file listenFd) polled := by
  obtain ⟨polled, loop⟩ := (startServer_consistent db file listenFd).at
  refine ⟨polled, loop, ?_, ?_, ?_, ?_⟩
  · simpa [stored, startSystem, startServer] using holds
  · rintro slot ⟨-, i, nEvents, impossible, -⟩
    cases impossible
  · rintro first second slot impossible
    cases impossible
  · exact fun client => .starting rfl

variable {args : ι → Args} {dbfd polled : Nat} {records : List Employee}
variable {history : List (Event ι)} {event : Event ι} {sys next : System ι} {client : ι}
variable {env : Env} {server : State} {actions : List Action} {slot : Slot}
variable {session : Session} {phase : Phase} {toServer toClient rest : List (List UInt8)}
variable {message : List UInt8}

theorem System.put_self (sys : System ι) (server : State) (client : ι) (session : Session)
    : (sys.put server client session).sessions client = session :=
  Function.update_self ..

theorem System.put_other {other : ι} (differs : other ≠ client) (server : State)
    (session : Session)
    : (sys.put server client session).sessions other = sys.sessions other :=
  Function.update_of_ne differs ..

-----------------------------------------------------------------------------------------
-- Steps of a client
-----------------------------------------------------------------------------------------

/-- A step of a client keeps up the invariant when the client stands somewhere behind it: the
server is not changed, and what it can read does not become less.
-/
theorem Sound.client_step (sound : Sound args records history sys polled)
    (silent : event.accepted = []) (quiet : ∀ other, event.acceptedFor other = [])
    (link
      : ∀ slot, session.link = .accepted slot ↔ (sys.sessions client).link = .accepted slot)
    (ready
      : (sys.sessions client).toServer ≠ [] ∨ (sys.sessions client).phase = .closed
        → session.toServer ≠ [] ∨ session.phase = .closed)
    (standing
      : Standing (args client) records (history ++ [event]) client sys.server.world.clients session)
    : Sound args records (history ++ [event]) (sys.put sys.server client session) polled := by
  have links (other : ι) (slot : Slot)
      : ((sys.put sys.server client session).sessions other).link = .accepted slot
        ↔ (sys.sessions other).link = .accepted slot := by
    by_cases own : other = client
    · rw [own, System.put_self, link]
    · rw [System.put_other own]
  refine ⟨sound.loop, ?_, ?_, ?_, ?_⟩
  · rw [stored_snoc, silent, List.map_nil, List.append_nil]
    exact sound.holds
  · intro slot visits
    obtain ⟨owner, linked, readable⟩ := sound.readable slot visits
    refine ⟨owner, (links owner slot).mpr linked, ?_⟩
    by_cases own : owner = client
    · subst own
      rw [System.put_self]
      exact ready readable
    · rwa [System.put_other own]
  · intro first second slot linkedFirst linkedSecond
    exact sound.apart first second slot ((links first slot).mp linkedFirst)
      ((links second slot).mp linkedSecond)
  · intro other
    by_cases own : other = client
    · subst own
      rw [System.put_self]
      exact standing
    · rw [System.put_other own]
      exact (sound.standing other).keep (quiet other) fun _ _ => rfl

-----------------------------------------------------------------------------------------
-- Steps of the server
-----------------------------------------------------------------------------------------

/-- A client in the backlog stands in a slot once it is accepted. -/
theorem Standing.accept {args : Args} {states states' : Clients}
    (standing
      : Standing args records history client states ⟨phase, .queued, toServer, toClient⟩)
    (quiet : event.acceptedFor client = []) {fd : Int32} (valid : fd ≠ -1)
    (opened : states' slot = ⟨fd, .hello, clearedBuffer⟩)
    : Standing args records (history ++ [event]) client states'
        ⟨phase, .accepted slot, toServer, toClient⟩ := by
  have connected : (states' slot).fd ≠ -1 := by rwa [opened]
  have kept : Standing args records (history ++ [event]) client states'
      ⟨phase, .queued, toServer, toClient⟩ :=
    standing.keep quiet fun _ impossible => by cases impossible
  cases kept with
  | queued first early =>
      have due : Due args (acceptedFor client (history ++ [event])) (states' slot) .sendHello :=
        .hello (by rw [opened]) (by rw [opened]; exact clearBehindHello_cleared) first
      rcases early with ⟨rfl, rfl⟩ | ⟨rfl, rfl, wrote⟩
      · exact .calling connected due
      · exact .sent connected due wrote

/-- A client whose next message the server reads has written the request of a call. -/
theorem Standing.sent_of_message {args : Args} {states : Clients}
    (standing
      : Standing args records history client states
          ⟨phase, .accepted slot, message :: rest, toClient⟩)
    : ∃ routine,
        phase = .waiting routine
        ∧ message = routine.request
        ∧ rest = []
        ∧ toClient = []
        ∧ (states slot).fd ≠ -1
        ∧ Due args (acceptedFor client history) (states slot) routine
        ∧ .wrote client routine ∈ history := by
  cases standing with
  | sent connected due wrote => exact ⟨_, rfl, rfl, rfl, rfl, connected, due, wrote⟩

/-- Only the request of `send_employee` is read as an add request. Its string is terminated inside
the client's buffer.
-/
theorem Due.terminated {args : Args} {accepted : List (List UInt8)} {world : World} {chunk : Chunk}
    {routine : Routine} (due : Due args accepted (world.clients slot) routine)
    (whole : chunk.bytes = routine.request)
    (asked : (world.receive slot chunk).request slot = .add)
    : nul ∈ addString ((world.receive slot chunk).message slot)
      ∧ ∃ employeeStr,
          args.addArg = some employeeStr
          ∧ accepted = []
          ∧ cString nul (addString ((world.receive slot chunk).message slot))
            = requestText employeeStr := by
  have reads : (world.receive slot chunk).message slot
      = (message routine).bytes ++ (world.message slot).drop (message routine).size :=
    receive_routine whole
  cases due with
  | hello state =>
      rw [World.request, World.receive_state, state] at asked
      simp only [requestOf] at asked
      split_ifs at asked
  | add given _ clear first =>
      obtain ⟨rest, place⟩ := addString_received clear whole
      refine ⟨by simp [place], _, given, first, ?_⟩
      rw [place, cString_append (nul_not_mem_requestText _)]
  | list state =>
      rw [World.request, World.receive_state, state, reads, requestOf_msg] at asked
      cases asked

/-- The server's handling of a client's request: the client's reply is on its way, and the
database holds one record more if it was an acceptable add.
-/
theorem Standing.serve {args : Args} {world after : World} {chunk : Chunk} {later : List Action}
    (standing
      : Standing args records history client world.clients
          ⟨phase, .accepted slot, message :: rest, toClient⟩)
    (holds : world.db.Holds (stored records history)) (whole : chunk.bytes = message)
    (handled : handleClientFsm env dbfd (world.receive slot chunk) slot = .ok (after, later))
    (accepted : event.accepted = acceptedRequests later)
    (own : event.acceptedFor client = acceptedRequests later)
    : Standing args records (history ++ [event]) client after.clients
        ⟨phase, .accepted slot, rest, toClient ++ repliesOf later⟩
      ∧ after.db.Holds (stored records (history ++ [event])) := by
  obtain ⟨routine, rfl, rfl, rfl, rfl, connected, due, wrote⟩ := standing.sent_of_message
  rw [stored_snoc, accepted, List.nil_append]
  have recorded := acceptedFor_snoc client history event
  rw [own] at recorded
  cases due with
  | hello state clear first =>
      obtain ⟨buffer, reply, outcome, clears, success, size⟩ := hello_exchange state whole
      obtain ⟨rfl, rfl⟩ := Prod.mk.inj (Except.ok.inj (handled.symm.trans outcome))
      rw [first] at recorded
      refine ⟨.answered ?_ ?_ ?_, ?_⟩
      · rwa [World.setClient_self]
      · rw [World.setClient_self]
      · rw [World.setClient_self]
        exact .hello size success (clears clear) recorded
      · simpa [acceptedRequests, World.setClient] using holds
  | @add employeeStr asked state clear first =>
      obtain ⟨buffer, reply, same, replies, size, outcome⟩ :=
        add_exchange state clear whole holds handled
      rw [first, List.nil_append] at recorded
      rw [replies, same]
      have slotState := world.setClient_self slot .msg buffer
      have decided : Decided employeeStr reply (acceptedFor client (history ++ [event])) := by
        rw [recorded]
        rcases outcome with ⟨accepts, one, success, -⟩ | ⟨rejects, none, error, -⟩
        · exact Or.inl ⟨accepts, one, success⟩
        · exact Or.inr ⟨rejects, none, error⟩
      refine ⟨.answered (by rwa [slotState]) (by rw [slotState]) (.add asked size decided), ?_⟩
      rcases outcome with ⟨-, one, -, extended⟩ | ⟨-, none, -, unchanged⟩
      · rw [one]
        exact extended
      · rwa [none, List.map_nil, List.append_nil]
  | list state =>
      obtain ⟨buffer, header, outcome, announces⟩ := list_exchange state whole holds
      obtain ⟨rfl, rfl⟩ := Prod.mk.inj (Except.ok.inj (handled.symm.trans outcome))
      have slotState := world.setClient_self slot .msg buffer
      rw [repliesOf_sent, acceptedRequests_sent]
      refine ⟨.answered (by rwa [slotState]) (by rw [slotState]) (.list ?_ announces), ?_⟩
      · exact ⟨List.prefix_append history [event], wrote⟩
      · rwa [List.map_nil, List.append_nil]

/-- Nothing but the first add request of a client is accepted, and only if it is acceptable. -/
theorem Standing.accepts {args : Args} {world after : World} {chunk : Chunk} {later : List Action}
    (standing
      : Standing args records history client world.clients
          ⟨phase, .accepted slot, message :: rest, toClient⟩)
    (holds : world.db.Holds (stored records history)) (whole : chunk.bytes = message)
    (handled : handleClientFsm env dbfd (world.receive slot chunk) slot = .ok (after, later))
    : acceptedRequests later = []
      ∨ ∃ employeeStr,
          args.addArg = some employeeStr
          ∧ phase = .waiting (.sendEmployee employeeStr)
          ∧ acceptable (requestText employeeStr)
          ∧ acceptedFor client history = []
          ∧ acceptedRequests later = [requestText employeeStr] := by
  obtain ⟨routine, rfl, rfl, rfl, rfl, connected, due, -⟩ := standing.sent_of_message
  cases due with
  | hello state clear first =>
      obtain ⟨buffer, reply, outcome, -⟩ := hello_exchange state whole
      obtain ⟨rfl, rfl⟩ := Prod.mk.inj (Except.ok.inj (handled.symm.trans outcome))
      exact Or.inl rfl
  | @add employeeStr asked state clear first =>
      obtain ⟨buffer, reply, -, -, -, ⟨accepts, one, -⟩ | ⟨-, none, -⟩⟩ :=
        add_exchange state clear whole holds handled
      · exact Or.inr ⟨employeeStr, asked, rfl, accepts, first, one⟩
      · exact Or.inl none
  | list state =>
      obtain ⟨buffer, header, outcome, -⟩ := list_exchange state whole holds
      obtain ⟨rfl, rfl⟩ := Prod.mk.inj (Except.ok.inj (handled.symm.trans outcome))
      exact Or.inl (acceptedRequests_sent _ _)

/-- A client in a slot is connected there. -/
theorem Standing.connected {args : Args} {states : Clients}
    (standing : Standing args records history client states session)
    (linked : session.link = .accepted slot)
    : (states slot).fd ≠ -1 := by
  cases standing with
  | starting | queued | ended => cases linked
  | calling connected | sent connected | answered connected | listing connected | leaving connected
  | closed connected =>
      obtain rfl := Link.accepted.inj linked
      exact connected

/-- Behind a step of the server the loop is consistent, and the clients to be visited are not
read from by the step.
-/
theorem Sound.loop_step (sound : Sound args records history sys polled)
    (contract : Contract sys env) (ended : EndedAdds sys.server env)
    (result : pollLoopStep env dbfd sys.server = .ok (server, actions))
    : server.ConsistentAt (sys.server.polledAfter polled)
      ∧ ∀ slot,
          server.Visits (sys.server.polledAfter polled) slot
          → sys.Readable slot ∧ sys.server.reading ≠ some slot := by
  refine ⟨sound.loop.step contract.fresh contract.polled ended result, fun slot visits => ?_⟩
  obtain ⟨reported | before, others⟩ :=
    sound.loop.visits_step contract.fresh contract.polled ended result visits
  · exact ⟨contract.ready slot reported, others⟩
  · exact ⟨sound.readable slot before, others⟩

/-- A step of the server that is about one client keeps up the invariant when that client stands
somewhere behind it, in a slot of its own, and the other slots stay as they are.
-/
theorem Sound.server_step (sound : Sound args records history sys polled)
    (contract : Contract sys env) (ended : EndedAdds sys.server env)
    (result : pollLoopStep env dbfd sys.server = .ok (server, actions))
    (about : ∀ slot, (sys.sessions client).link = .accepted slot → sys.server.reading = some slot)
    (holds : server.world.db.Holds (stored records (history ++ [event])))
    (quiet : ∀ other ≠ client, event.acceptedFor other = [])
    (others
      : ∀ other ≠ client, ∀ slot,
          (sys.sessions other).link = .accepted slot
          → server.world.clients slot = sys.server.world.clients slot
            ∧ session.link ≠ .accepted slot)
    (standing
      : Standing (args client) records (history ++ [event]) client server.world.clients session)
    : ∃ polled, Sound args records (history ++ [event]) (sys.put server client session) polled := by
  obtain ⟨loop, visited⟩ := sound.loop_step contract ended result
  refine ⟨_, loop, holds, ?_, ?_, ?_⟩
  · intro slot visits
    obtain ⟨⟨owner, linked, readable⟩, notRead⟩ := visited slot visits
    have differs : owner ≠ client := by
      rintro rfl
      exact notRead (about slot linked)
    exact ⟨owner, by rwa [System.put_other differs], by rwa [System.put_other differs]⟩
  · intro first second slot
    by_cases ownFirst : first = client <;> by_cases ownSecond : second = client
    · exact fun _ _ => ownFirst.trans ownSecond.symm
    · subst ownFirst
      rw [System.put_self, System.put_other ownSecond]
      exact fun linked other => absurd linked (others second ownSecond slot other).2
    · subst ownSecond
      rw [System.put_self, System.put_other ownFirst]
      exact fun other linked => absurd linked (others first ownFirst slot other).2
    · rw [System.put_other ownFirst, System.put_other ownSecond]
      exact sound.apart first second slot
  · intro other
    by_cases own : other = client
    · subst own
      rw [System.put_self]
      exact standing
    · rw [System.put_other own]
      exact (sound.standing other).keep (quiet other own) fun slot linked =>
        (others other own slot linked).1

/-- A step of the server that nothing comes of keeps up the invariant. -/
theorem Sound.idle_step (sound : Sound args records history sys polled)
    (contract : Contract sys env)
    (result : pollLoopStep env dbfd sys.server = .ok (server, []))
    : ∃ polled,
        Sound args records (history ++ [.served none []]) ⟨server, sys.sessions⟩ polled := by
  rcases pollLoopStep_event result with
      ⟨quiet, ⟨same, -⟩ | ⟨_, _, _, _, impossible⟩⟩
      | ⟨_, _, ⟨_, _, impossible⟩ | ⟨_, _, _, _, impossible⟩⟩
  · have ended : EndedAdds sys.server env := by
      rintro slot reading
      rw [quiet] at reading
      cases reading
    obtain ⟨loop, visited⟩ := sound.loop_step contract ended result
    refine ⟨_, loop, ?_, fun slot visits => (visited slot visits).1, sound.apart, ?_⟩
    · simpa [stored_snoc, Event.accepted, acceptedRequests, same] using sound.holds
    · exact fun client => (sound.standing client).keep rfl fun slot _ => by rw [same]
  · cases impossible
  · cases impossible
  · cases impossible

/-- So does the step that accepts a connection. -/
theorem Sound.accept_step (sound : Sound args records history sys polled)
    (before : sys.sessions client = ⟨phase, .queued, toServer, toClient⟩)
    (contract : Contract sys env)
    (result : pollLoopStep env dbfd sys.server = .ok (server, [.accepted slot env.accept]))
    : ∃ polled,
        Sound args records (history ++ [.served (some client) [.accepted slot env.accept]])
          (sys.put server client ⟨phase, .accepted slot, toServer, toClient⟩) polled := by
  rcases pollLoopStep_event result with
      ⟨quiet, ⟨_, impossible | impossible⟩ | ⟨opened, free, valid, same, accepted⟩⟩
      | ⟨_, _, ⟨_, _, impossible⟩ | ⟨_, _, _, _, impossible⟩⟩
  · cases impossible
  · cases impossible
  · obtain rfl : slot = opened := by
      cases accepted
      rfl
    have standing := sound.standing client
    rw [before] at standing
    refine sound.server_step contract ?_ result ?_ ?_ ?_ ?_ ?_
    · rintro slot reading
      rw [quiet] at reading
      cases reading
    · rintro slot linked
      rw [before] at linked
      cases linked
    · rw [same, stored_snoc]
      simpa [Event.accepted, acceptedRequests, World.connect] using sound.holds
    · intro other differs
      simp [Event.acceptedFor, acceptedRequests]
    · intro other _ slot' linked
      have connected := (sound.standing other).connected linked
      have apart : slot' ≠ slot := fun equal => connected (equal ▸ free)
      rw [same]
      exact ⟨World.connect_other apart _, fun equal => apart (Link.accepted.inj equal).symm⟩
    · refine standing.accept (by simp [Event.acceptedFor, acceptedRequests]) valid ?_
      rw [same, World.connect_self, sound.loop.tidy.cleared slot free]
  · cases impossible
  · cases impossible

/-- So does the step that handles a client's request. -/
theorem Sound.serve_step (sound : Sound args records history sys polled) {chunk : Chunk}
    (before : sys.sessions client = ⟨phase, .accepted slot, message :: rest, toClient⟩)
    (contract : Contract sys env) (reading : sys.server.reading = some slot)
    (received : env.read = some chunk) (whole : chunk.bytes = message)
    (result : pollLoopStep env dbfd sys.server = .ok (server, actions))
    : ∃ polled,
        Sound args records (history ++ [.served (some client) actions])
          (sys.put server client ⟨phase, .accepted slot, rest, toClient ++ repliesOf actions⟩)
          polled := by
  obtain ⟨later, handled, rfl⟩ := pollLoopStep_message result reading received
  have standing := sound.standing client
  rw [before] at standing
  obtain ⟨routine, -, written, -, -, -, due, -⟩ := standing.sent_of_message
  have ends (asked : (sys.server.world.receive slot chunk).request slot = .add)
      : EndsInside (addString ((sys.server.world.receive slot chunk).message slot)) :=
    Or.inl (due.terminated (whole.trans written) asked).1
  obtain ⟨state, buffer, clients, -⟩ := (handleClientFsm_handled handled).clients ends
  rw [World.receive_setClient] at clients
  let event : Event ι := .served (some client)
    (.handled slot (sys.server.world.clients slot).state
      ((sys.server.world.receive slot chunk).clients slot).buffer :: later)
  have accepted : event.accepted = acceptedRequests later := acceptedRequests_handled ..
  have own : event.acceptedFor client = acceptedRequests later := by
    rw [← accepted]
    simp [event, Event.accepted, Event.acceptedFor]
  obtain ⟨stands, holds⟩ := standing.serve sound.holds whole handled accepted own
  refine sound.server_step contract ?_ result ?_ holds ?_ ?_ ?_
  · intro other same _ read
    rw [reading] at same
    rw [received] at read
    cases same
    cases read
    exact ends
  · rintro other linked
    rw [before] at linked
    cases linked
    exact reading
  · intro other differs
    simp [Event.acceptedFor, differs.symm]
  · intro other differs slot' linked
    have apart : slot' ≠ slot := by
      rintro rfl
      exact differs (sound.apart other client slot' linked (by rw [before]))
    rw [clients, World.setClient_other apart]
    exact ⟨rfl, fun equal => apart (Link.accepted.inj equal).symm⟩
  · exact stands

/-- So does the step that finds the end of a connection. -/
theorem Sound.hangUp_step (sound : Sound args records history sys polled)
    (before : sys.sessions client = ⟨.closed, .accepted slot, [], toClient⟩)
    (contract : Contract sys env) (reading : sys.server.reading = some slot)
    (ended : env.read = none)
    (result : pollLoopStep env dbfd sys.server = .ok (server, actions))
    : ∃ polled,
        Sound args records (history ++ [.served (some client) actions])
          (sys.put server client ⟨.closed, .ended, [], toClient⟩) polled := by
  rcases pollLoopStep_event result with
      ⟨impossible, -⟩ | ⟨read, same, ⟨-, disconnected, rfl⟩ | ⟨_, _, impossible, -⟩⟩
  · cases reading.symm.trans impossible
  · obtain rfl := Option.some.inj (reading.symm.trans same)
    have standing := sound.standing client
    rw [before] at standing
    have silent (other : ι)
        : Event.acceptedFor other (.served (some client) [.disconnected slot]) = [] := by
      simp [Event.acceptedFor, acceptedRequests]
    refine sound.server_step contract ?_ result ?_ ?_ ?_ ?_ ?_
    · intro _ _ _ impossible
      rw [ended] at impossible
      cases impossible
    · rintro other linked
      rw [before] at linked
      cases linked
      exact reading
    · rw [disconnected, stored_snoc]
      simpa [Event.accepted, acceptedRequests, World.disconnect] using sound.holds
    · exact fun other _ => silent other
    · intro other differs slot' linked
      have apart : slot' ≠ slot := by
        rintro rfl
        exact differs (sound.apart other client slot' linked (by rw [before]))
      rw [disconnected]
      exact ⟨World.disconnect_other apart, by simp⟩
    · cases standing with
      | closed connected => exact .ended
  · rw [ended] at impossible
    cases impossible

end LowlevelAcademy.Network
