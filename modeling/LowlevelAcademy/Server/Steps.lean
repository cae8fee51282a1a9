import LowlevelAcademy.Server.PollLoop

/-! What one step of the server can do: an inversion of the handler for each kind of request,
and of the poll loop for each kind of event.
-/

namespace LowlevelAcademy.Server

open LowlevelAcademy.Foundations
open LowlevelAcademy.Database

/-- The ways in which handling the message of `slot` can succeed. An add changes the database
as `add_employee` does on the memory from the add string on; when the string ends inside the
client's buffer, the other slots stay as they are.
-/
inductive Handled (env : Env) (dbfd : Nat) (world : World) (slot : Slot)
    : World → List Action → Prop
  | greeting {buffer} (asked : world.request slot = .greeting)
    : Handled env dbfd world slot (world.setClient slot .msg buffer)
        [.sent slot (helloBytes (world.clients slot).buffer)]
  | refused {buffer} (asked : world.request slot = .refused)
    : Handled env dbfd world slot (world.setClient slot .hello buffer)
        [.sent slot (replyBytes (world.clients slot).buffer .error 0)]
  | ignored {buffer} (asked : world.request slot = .ignored)
    : Handled env dbfd world slot (world.setClient slot (world.clients slot).state buffer) []
  | listed {buffer sent} (asked : world.request slot = .list)
    (reply : fsmReplyList world.db (world.clients slot).buffer.swapHeader = .ok (buffer, sent))
    : Handled env dbfd world slot (world.setClient slot .msg buffer) (sent.map (.sent slot))
  | rejected {clients reply db memory} (asked : world.request slot = .add)
    (result
      : addEmployee env.realloc world.db
          (addString (world.message slot) ++ world.clients.following slot)
        = .ok ⟨.error, db, memory⟩)
    (frame
      : EndsInside (addString (world.message slot))
        → reply = replyBytes (world.clients slot).buffer .error 0
          ∧ ∃ buffer, clients = (world.setClient slot .msg buffer).clients)
    : Handled env dbfd world slot ⟨clients, db, world.file⟩
        [.added slot (world.addRequest slot) .error, .sent slot reply]
  | added {clients reply db memory saved} (asked : world.request slot = .add)
    (result
      : addEmployee env.realloc world.db
          (addString (world.message slot) ++ world.clients.following slot)
        = .ok ⟨.success, db, memory⟩)
    (saving : outputFile env.writes dbfd world.file db = .ok saved)
    (frame
      : EndsInside (addString (world.message slot))
        → reply = replyBytes (world.clients slot).buffer .employeeAddResp 0
          ∧ ∃ buffer, clients = (world.setClient slot .msg buffer).clients)
    : Handled env dbfd world slot ⟨clients, saved.db, saved.file⟩
        [.added slot (world.addRequest slot) .success, .sent slot reply,
          .saved slot saved.written]

variable {env : Env} {dbfd : Nat} {world next : World} {slot : Slot} {actions : List Action}

/-- Handling an add request whose string ends inside the client's buffer. -/
private theorem handled_add_inside (asked : world.request slot = .add)
    (ends : EndsInside (addString (world.message slot)))
    (result : handleClientFsm env dbfd world slot = .ok (next, actions))
    : Handled env dbfd world slot next actions := by
  obtain ⟨buffer, equation⟩ := handleClientFsm_add env dbfd world slot asked ends
  have longer := addEmployee_append (addEmployee_endsInside env.realloc world.db ends)
    (world.clients.following slot)
  rw [equation] at result
  cases own : addEmployee env.realloc world.db (addString (world.message slot)) with
  | error halt => simp [own] at result
  | ok added =>
      obtain ⟨_ | _, db, memory⟩ := added
      · simp only [own, Except.map, finishAdd] at result longer
        split at result
        · cases result
        next saved saving =>
        simp only [Except.ok.injEq, Prod.mk.injEq] at result
        obtain ⟨rfl, rfl⟩ := result
        exact .added asked longer saving fun _ => ⟨rfl, buffer, rfl⟩
      · simp only [own, Except.map, finishAdd, Except.ok.injEq, Prod.mk.injEq] at result longer
        obtain ⟨rfl, rfl⟩ := result
        exact .rejected asked longer fun _ => ⟨rfl, buffer, rfl⟩

/-- Handling an add request whose string may run past the client's buffer. -/
private theorem handled_add_outside (asked : world.request slot = .add)
    (runsOn : ¬ EndsInside (addString (world.message slot)))
    (result : handleClientFsm env dbfd world slot = .ok (next, actions))
    : Handled env dbfd world slot next actions := by
  rw [handleClientFsm_add_eq env dbfd world slot asked] at result
  simp only [handleAdd, memoryFrom_swapHeader] at result
  split at result
  · cases result
  next added scanned =>
  obtain ⟨_ | _, db, memory⟩ := added
  · simp only at result
    split at result
    · cases result
    next saved saving =>
    simp only [Except.ok.injEq, Prod.mk.injEq] at result
    obtain ⟨rfl, rfl⟩ := result
    exact .added asked scanned saving fun ends => absurd ends runsOn
  · simp only [Except.ok.injEq, Prod.mk.injEq] at result
    obtain ⟨rfl, rfl⟩ := result
    exact .rejected asked scanned fun ends => absurd ends runsOn

/-- Whenever the handler has a result, it is one of these ways. -/
theorem handleClientFsm_handled
    (result : handleClientFsm env dbfd world slot = .ok (next, actions))
    : Handled env dbfd world slot next actions := by
  cases asked : world.request slot with
  | greeting =>
      obtain ⟨buffer, equation⟩ := handleClientFsm_greeting env dbfd world slot asked
      simp only [equation, Except.ok.injEq, Prod.mk.injEq] at result
      obtain ⟨rfl, rfl⟩ := result
      exact .greeting asked
  | refused =>
      obtain ⟨buffer, equation⟩ := handleClientFsm_refused env dbfd world slot asked
      simp only [equation, Except.ok.injEq, Prod.mk.injEq] at result
      obtain ⟨rfl, rfl⟩ := result
      exact .refused asked
  | ignored =>
      simp only [handleClientFsm_ignored env dbfd world slot asked, Except.ok.injEq,
        Prod.mk.injEq] at result
      obtain ⟨rfl, rfl⟩ := result
      exact .ignored asked
  | list =>
      rw [handleClientFsm_list_eq env dbfd world slot asked, handleList] at result
      split at result
      · cases result
      · next reply =>
          simp only [Except.ok.injEq, Prod.mk.injEq] at result
          obtain ⟨rfl, rfl⟩ := result
          exact .listed asked reply
  | add =>
      by_cases ends : EndsInside (addString (world.message slot))
      · exact handled_add_inside asked ends result
      · exact handled_add_outside asked ends result

-----------------------------------------------------------------------------------------
-- One step of the poll loop
-----------------------------------------------------------------------------------------

/-- What a step of the poll loop can do to the world, and its label. -/
inductive Turn (env : Env) (dbfd : Nat) (server : State) : List Action → World → Prop
  | idle : Turn env dbfd server [] server.world
  | refused (full : findFreeSlot server.world.clients = none)
    : Turn env dbfd server [.refused env.accept] server.world
  | accepted {slot : Slot} (free : findFreeSlot server.world.clients = some slot)
    (valid : env.accept ≠ -1)
    : Turn env dbfd server [.accepted slot env.accept] (server.world.connect slot env.accept)
  | disconnected {slot : Slot} (reading : server.reading = some slot) (ended : env.read = none)
    : Turn env dbfd server [.disconnected slot] (server.world.disconnect slot)
  | handled {slot : Slot} {chunk : Chunk} {world : World} {later : List Action}
    (reading : server.reading = some slot)
    (received : env.read = some chunk)
    (outcome : Handled env dbfd (server.world.receive slot chunk) slot world later)
    : Turn env dbfd server
        (.handled slot (server.world.clients slot).state
          ((server.world.receive slot chunk).clients slot).buffer :: later)
        world

theorem World.connect_self (world : World) (slot : Slot) (fd : Int32)
    : (world.connect slot fd).clients slot = ⟨fd, .hello, (world.clients slot).buffer⟩ :=
  Function.update_self ..

theorem World.disconnect_self (world : World) (slot : Slot)
    : (world.disconnect slot).clients slot = ⟨-1, .disconnected, clearedBuffer⟩ :=
  Function.update_self ..

theorem World.setClient_self (world : World) (slot : Slot) (state : StateE) (buffer : Buffer)
    : (world.setClient slot state buffer).clients slot
      = ⟨(world.clients slot).fd, state, buffer⟩ :=
  Function.update_self ..

/-- Connecting, disconnecting and handling change one slot. -/
theorem World.connect_other {other : Slot} (differs : other ≠ slot) (fd : Int32)
    : (world.connect slot fd).clients other = world.clients other :=
  Function.update_of_ne differs ..

theorem World.disconnect_other {other : Slot} (differs : other ≠ slot)
    : (world.disconnect slot).clients other = world.clients other :=
  Function.update_of_ne differs ..

theorem World.setClient_other {other : Slot} (differs : other ≠ slot) (state : StateE)
    (buffer : Buffer)
    : (world.setClient slot state buffer).clients other = world.clients other :=
  Function.update_of_ne differs ..

/-- A receiving client keeps its state, and its buffer starts with the received bytes. -/
theorem World.receive_state (world : World) (slot : Slot) (chunk : Chunk)
    : ((world.receive slot chunk).clients slot).state = (world.clients slot).state := by
  simp [World.receive, World.setClient]

theorem World.receive_message (world : World) (slot : Slot) (chunk : Chunk)
    : (world.receive slot chunk).message slot
      = chunk.bytes ++ (world.message slot).drop chunk.bytes.length := by
  have fits := chunk.fits
  simp only [World.message, World.receive, World.setClient, Function.update_self]
  rw [Buffer.toList_store _ (by omega)]
  simp [splice]

theorem World.receive_request (world : World) (slot : Slot) (chunk : Chunk)
    : (world.receive slot chunk).request slot
      = requestOf (world.clients slot).state
          (chunk.bytes ++ (world.message slot).drop chunk.bytes.length) := by
  rw [World.request, world.receive_state, world.receive_message]

/-- How the start of an iteration can end, by what the listening socket reports and what
`accept` returns.
-/
theorem pollStep_cases {server next : State}
    (result : pollStep env server = .ok (next, actions))
    : ∃ events fds nEvents,
        env.poll = some events
        ∧ fds = (rebuildFds server.world.clients (List.finRange maxClients) 1
          server.fds).report server.nfds events
        ∧ nEvents = readyCount server.nfds events - (if (fds 0).readable then 1 else 0)
        ∧ ((next = ⟨server.world, fds, server.nfds, .poll⟩ ∧ actions = [])
          ∨ (next = ⟨server.world, fds, server.nfds, .scan 1 nEvents⟩
            ∧ (actions = []
              ∨ findFreeSlot server.world.clients = none ∧ actions = [.refused env.accept]))
          ∨ ∃ slot,
              findFreeSlot server.world.clients = some slot
              ∧ env.accept ≠ -1
              ∧ next
                = ⟨server.world.connect slot env.accept, fds, server.nfds + 1, .scan 1 nEvents⟩
              ∧ actions = [.accepted slot env.accept]) := by
  simp only [pollStep] at result
  split at result
  · cases result
  next events reported =>
  refine ⟨events, _, _, reported, rfl, rfl, ?_⟩
  split at result
  · next listening =>
    rw [if_pos listening]
    split at result
    · simp only [Except.ok.injEq, Prod.mk.injEq] at result
      exact Or.inl ⟨result.1.symm, result.2.symm⟩
    next valid =>
    split at result
    · next full =>
        simp only [Except.ok.injEq, Prod.mk.injEq] at result
        exact Or.inr (Or.inl ⟨result.1.symm, Or.inr ⟨full, result.2.symm⟩⟩)
    · next slot free =>
        simp only [Except.ok.injEq, Prod.mk.injEq] at result
        exact Or.inr (Or.inr ⟨slot, free, valid, result.1.symm, result.2.symm⟩)
  · next silent =>
    rw [if_neg silent]
    simp only [Except.ok.injEq, Prod.mk.injEq] at result
    exact Or.inr (Or.inl ⟨result.1.symm, Or.inl result.2.symm⟩)

/-- How reading from a ready client can end. -/
theorem serveClient_cases {nfds nfds' : Nat}
    (result : serveClient env dbfd world nfds slot = .ok (next, nfds', actions))
    : (env.read = none
        ∧ next = world.disconnect slot
        ∧ nfds' = nfds - 1
        ∧ actions = [.disconnected slot])
      ∨ ∃ chunk later,
          env.read = some chunk
          ∧ Handled env dbfd (world.receive slot chunk) slot next later
          ∧ nfds' = nfds
          ∧ actions
            = .handled slot (world.clients slot).state
                ((world.receive slot chunk).clients slot).buffer :: later := by
  simp only [serveClient] at result
  split at result
  · next ended =>
      simp only [Except.ok.injEq, Prod.mk.injEq] at result
      exact Or.inl ⟨ended, result.1.symm, result.2.1.symm, result.2.2.symm⟩
  next chunk received =>
  split at result
  · cases result
  next handled =>
  simp only [Except.ok.injEq, Prod.mk.injEq] at result
  obtain ⟨rfl, rfl, rfl⟩ := result
  refine Or.inr ⟨chunk, _, received, handleClientFsm_handled handled, rfl, ?_⟩
  rw [World.receive_state]

/-- How a turn over the entries can end: the loop is over, the entry is not ready, or its
client is served.
-/
theorem scanStep_cases {server next : State} {i nEvents : Nat}
    (result : scanStep env dbfd server i nEvents = .ok (next, actions))
    : (next = ⟨server.world, server.fds, server.nfds, .poll⟩ ∧ actions = [])
      ∨ ∃ inside : i < maxClients + 1,
          (i ≤ server.nfds ∧ 0 < nEvents)
          ∧ (((server.fds ⟨i, inside⟩).readable = false
              ∧ next = ⟨server.world, server.fds, server.nfds, .scan (i + 1) nEvents⟩
              ∧ actions = [])
            ∨ ∃ slot world nfds,
                (server.fds ⟨i, inside⟩).readable
                ∧ findSlotByFd server.world.clients (server.fds ⟨i, inside⟩).fd = some slot
                ∧ serveClient env dbfd server.world server.nfds slot = .ok (world, nfds, actions)
                ∧ next = ⟨world, server.fds, nfds, .scan (i + 1) (nEvents - 1)⟩) := by
  simp only [scanStep] at result
  split at result
  · next more =>
    split at result
    · next inside =>
      refine Or.inr ⟨inside, more, ?_⟩
      split at result
      · next readable =>
        split at result
        · cases result
        next slot found =>
        split at result
        · cases result
        next world nfds later served =>
        simp only [Except.ok.injEq, Prod.mk.injEq] at result
        obtain ⟨rfl, rfl⟩ := result
        exact Or.inr ⟨slot, world, nfds, readable, found, served, rfl⟩
      · next silent =>
        simp only [Except.ok.injEq, Prod.mk.injEq] at result
        exact Or.inl ⟨by simpa using silent, result.1.symm, result.2.symm⟩
    · cases result
  · simp only [Except.ok.injEq, Prod.mk.injEq] at result
    exact Or.inl ⟨result.1.symm, result.2.symm⟩

/-- The client that a turn serves is the one the server reads from. -/
theorem State.reading_of_scan (server : State) {i nEvents : Nat}
    (position : server.position = .scan i nEvents) (inside : i < maxClients + 1)
    (more : i ≤ server.nfds ∧ 0 < nEvents)
    (readable : (server.fds ⟨i, inside⟩).readable)
    : server.reading = findSlotByFd server.world.clients (server.fds ⟨i, inside⟩).fd := by
  simp only [State.reading, position, if_pos more, dif_pos inside, if_pos readable]

/-- Whenever the loop has a next state, the step is one of these turns. -/
theorem pollLoopStep_turn {server next : State}
    (result : pollLoopStep env dbfd server = .ok (next, actions))
    : Turn env dbfd server actions next.world := by
  simp only [pollLoopStep] at result
  split at result
  · rcases pollStep_cases result with
        ⟨events, fds, nEvents, -, -, -,
          ⟨rfl, rfl⟩ | ⟨rfl, rfl | ⟨full, rfl⟩⟩ | ⟨slot, free, valid, rfl, rfl⟩⟩
    · exact .idle
    · exact .idle
    · exact .refused full
    · exact .accepted free valid
  · next i nEvents position =>
    rcases scanStep_cases result with
        ⟨rfl, rfl⟩
        | ⟨inside, more, ⟨-, rfl, rfl⟩ | ⟨slot, world, nfds, readable, found, served, rfl⟩⟩
    · exact .idle
    · exact .idle
    · have reading := (State.reading_of_scan server position inside more readable).trans found
      rcases serveClient_cases served with
          ⟨ended, rfl, -, rfl⟩ | ⟨chunk, later, received, handled, -, rfl⟩
      · exact .disconnected reading ended
      · exact .handled reading received handled

/-- As long as an add string ends inside the client's buffer, handling a message changes only
the client's own slot: a greeting moves it to `STATE_MSG`, and otherwise its state stays.
-/
theorem Handled.clients (handled : Handled env dbfd world slot next actions)
    (ends : world.request slot = .add → EndsInside (addString (world.message slot)))
    : ∃ state buffer,
        next.clients = (world.setClient slot state buffer).clients
        ∧ state
          = if world.request slot = .greeting then .msg else (world.clients slot).state := by
  cases handled with
  | greeting asked => exact ⟨_, _, rfl, (if_pos asked).symm⟩
  | ignored asked => exact ⟨_, _, rfl, by rw [asked, if_neg (by decide)]⟩
  | refused asked | listed asked =>
      refine ⟨_, _, rfl, ?_⟩
      rw [asked, if_neg (by decide), (world.request_asked slot asked).1]
  | rejected asked _ frame | added asked _ _ frame =>
      obtain ⟨-, buffer, same⟩ := frame (ends asked)
      refine ⟨.msg, buffer, same, ?_⟩
      rw [asked, if_neg (by decide), (world.request_asked slot asked).1]

/-- Handling a message adds, sends and saves for its own client only. -/
theorem Handled.own (handled : Handled env dbfd world slot next actions)
    : ∀ action ∈ actions,
        (∃ request status, action = .added slot request status)
        ∨ (∃ bytes, action = .sent slot bytes)
        ∨ ∃ written, action = .saved slot written := by
  cases handled <;> simp

/-- The replies to a message are sent on its own connection. -/
theorem Handled.sent_own (handled : Handled env dbfd world slot next actions) {other : Slot}
    {message : List UInt8} (sent : .sent other message ∈ actions)
    : other = slot := by
  rcases handled.own _ sent with ⟨_, _, impossible⟩ | ⟨_, same⟩ | ⟨_, impossible⟩
  · cases impossible
  · exact (Action.sent.inj same).1
  · cases impossible

/-- Receiving before handling changes nothing in the slot that handling does not overwrite. -/
theorem World.receive_setClient (world : World) (slot : Slot) (chunk : Chunk)
    (state : StateE) (buffer : Buffer)
    : (world.receive slot chunk).setClient slot state buffer
      = world.setClient slot state buffer := by
  simp [World.receive, World.setClient]

-----------------------------------------------------------------------------------------
-- What a step does to the database and the file
-----------------------------------------------------------------------------------------

/-- The add requests for which `add_employee` returned `STATUS_SUCCESS`, in order. -/
def acceptedRequests (actions : List Action) : List (List UInt8) :=
  actions.filterMap fun
    | .added _ request .success => some request
    | _ => none

@[simp] theorem acceptedRequests_append (first second : List Action)
    : acceptedRequests (first ++ second)
      = acceptedRequests first ++ acceptedRequests second := by
  simp [acceptedRequests]

/-- Sending is not accepting. -/
@[simp] theorem acceptedRequests_sent (slot : Slot) (sent : List (List UInt8))
    : acceptedRequests (sent.map (.sent slot)) = [] := by
  simp [acceptedRequests]

@[simp] theorem acceptedRequests_handled (slot : Slot) (state : StateE) (buffer : Buffer)
    (later : List Action)
    : acceptedRequests (.handled slot state buffer :: later) = acceptedRequests later := by
  simp [acceptedRequests]

/-- An add string in `memory` is accepted, and saving the new database leads to `next`. -/
def Accepts (env : Env) (dbfd : Nat) (world : World) (memory : List UInt8) (next : World)
    : Prop :=
  ∃ db edited saved,
    addEmployee env.realloc world.db memory = .ok ⟨.success, db, edited⟩
    ∧ outputFile env.writes dbfd world.file db = .ok saved
    ∧ next.db = saved.db
    ∧ next.file = saved.file

/-- Handling a message leaves database and file alone, or it is an add request in
`STATE_MSG` that is accepted and saved.
-/
theorem Handled.database (handled : Handled env dbfd world slot next actions)
    : (next.db = world.db ∧ next.file = world.file ∧ acceptedRequests actions = [])
      ∨ (world.request slot = .add
        ∧ acceptedRequests actions = [world.addRequest slot]
        ∧ Accepts env dbfd world
          (addString (world.message slot) ++ world.clients.following slot) next) := by
  cases handled with
  | greeting | refused | ignored | listed => exact Or.inl ⟨rfl, rfl, by simp [acceptedRequests]⟩
  | rejected asked result =>
      rcases addEmployee_cases result with ⟨-, same⟩ | ⟨impossible, -⟩
      · exact Or.inl ⟨same, rfl, by simp [acceptedRequests]⟩
      · cases impossible
  | added asked result saving =>
      refine Or.inr ⟨asked, by simp [acceptedRequests], ?_⟩
      exact ⟨_, _, _, result, saving, rfl, rfl⟩

/-- A step leaves database and file alone, or it accepts one add request and saves. Guarded
add strings have a terminator in the memory they are taken from.
-/
theorem Turn.database {server : State} (turn : Turn env dbfd server actions next)
    : (next.db = server.world.db ∧ next.file = server.world.file
        ∧ acceptedRequests actions = [])
      ∨ ∃ memory,
          Accepts env dbfd server.world memory next
          ∧ acceptedRequests actions = [cString nul memory]
          ∧ (TerminatedAdds server env → nul ∈ memory) := by
  cases turn with
  | idle | refused | accepted | disconnected =>
      exact Or.inl ⟨rfl, rfl, by simp [acceptedRequests]⟩
  | handled reading received outcome =>
      rcases outcome.database with ⟨sameDb, sameFile, none⟩ | ⟨asked, requests, accepts⟩
      · exact Or.inl ⟨sameDb, sameFile, by simpa using none⟩
      · refine Or.inr ⟨_, accepts, by simpa using requests, fun terminated => ?_⟩
        exact List.mem_append_left _ (terminated _ reading _ received asked)

/-- Accepting an add string extends a held database by one record: the one its fields
describe, when it has a terminator.
-/
theorem Accepts.holds {memory : List UInt8} {records : List Employee}
    (accepts : Accepts env dbfd world memory next) (holds : world.db.Holds records)
    : ∃ employee,
        next.db.Holds (records ++ [employee])
        ∧ (nul ∈ memory → employee = employeeOf (cString nul memory)) := by
  obtain ⟨db, edited, saved, result, saving, sameDb, -⟩ := accepts
  have savedHolds (employee : Employee) (appended : db.Holds (records ++ [employee]))
      : next.db.Holds (records ++ [employee]) := by
    obtain ⟨other, again, last, -⟩ :=
      outputFile_ok env.writes (Int.natCast_nonneg dbfd) world.file appended
    rw [saving] at again
    obtain rfl := Except.ok.inj again
    rw [sameDb, last]
    exact ⟨rfl, appended.count⟩
  by_cases terminated : nul ∈ memory
  · obtain ⟨rest, split⟩ := cString_split terminated
    obtain ⟨edited', -, outcome⟩ := addEmployee_terminated env.realloc world.db
      (nul_not_mem_cString nul memory) rest
    rw [← split, result, addResult] at outcome
    split_ifs at outcome
    · split at outcome
      · cases outcome
      · next appended =>
          cases outcome
          exact ⟨_, savedHolds _ (appendEmployee_holds holds appended).1, fun _ => rfl⟩
    · simp at outcome
  · rcases addEmployee_cases result with ⟨impossible, -⟩ | ⟨-, employee, appended⟩
    · cases impossible
    · exact ⟨employee, savedHolds _ (appendEmployee_holds holds appended).1,
        fun member => absurd member terminated⟩

/-- Whatever the database was before, accepting counts one more record, the one that the string
describes, and saves a database that holds as many records as it counts. After the save only
its size field differs.
-/
theorem Accepts.saves {memory : List UInt8} (accepts : Accepts env dbfd world memory next)
    : ∃ db saved earlier,
        db.header = { world.db.header with count := world.db.header.count + 1 }
        ∧ db.Holds (earlier ++ [employeeOf (cString nul memory)])
        ∧ world.db.header.count.toNat = earlier.length
        ∧ outputFile env.writes dbfd world.file db = .ok saved
        ∧ next.db
          = ⟨{ db.header with filesize := ntohl (headerOf (earlier.length + 1)).filesize },
            db.employees⟩
        ∧ next.file = saved.file := by
  obtain ⟨db, edited, saved, scanned, saving, sameDb, sameFile⟩ := accepts
  obtain ⟨final, outcome⟩ := addEmployee_request (by rw [scanned]; simp)
  rw [scanned, addResult] at outcome
  split_ifs at outcome
  · split at outcome
    · cases outcome
    next appended =>
    cases outcome
    obtain ⟨earlier, holds, header⟩ := appendEmployee_last appended
    obtain ⟨again, savesAgain, savedDb, -⟩ :=
      outputFile_ok env.writes (Int.natCast_nonneg dbfd) world.file holds
    obtain rfl := Except.ok.inj (savesAgain.symm.trans saving)
    refine ⟨db, again, earlier, header, holds, ?_, saving, ?_, sameFile⟩
    · -- the new counter is not zero, so it did not wrap
      have count := holds.count
      rw [List.length_append, List.length_singleton, header, UInt16.toNat_add] at count
      change (world.db.header.count.toNat + 1) % 2 ^ 16 = _ at count
      have bound := world.db.header.count.toNat_lt
      omega
    · rw [sameDb, savedDb, holds.employees, List.length_append, List.length_singleton]
  · simp at outcome

/-- So afterwards it holds as many records as its counter says, one more than before. -/
theorem Accepts.last {memory : List UInt8} (accepts : Accepts env dbfd world memory next)
    : ∃ earlier,
        next.db.Holds (earlier ++ [employeeOf (cString nul memory)])
        ∧ world.db.header.count.toNat = earlier.length := by
  obtain ⟨db, saved, earlier, -, holds, old, -, sameDb, -⟩ := accepts.saves
  exact ⟨earlier, ⟨by rw [sameDb, holds.employees], by rw [sameDb, ← holds.count]⟩, old⟩

/-- Accepting keeps a valid header, but for the size field, which gets the byte-swapped size.
Complete writes put the new roster's file over the start of the old contents.
-/
theorem Accepts.represents {memory : List UInt8} {roster : Roster}
    (accepts : Accepts env dbfd world memory next) (live : world.db.Represents roster)
    : ∃ extended : Roster,
        (∃ employee, extended.records = roster.records ++ [employee])
        ∧ next.db.Represents extended
        ∧ next.db.header.filesize = ntohl (headerOf extended.records.length).filesize
        ∧ ((∀ i, env.writes i = .complete)
          → next.file.content
            = extended.encode ++ world.file.content.drop extended.encode.length) := by
  obtain ⟨db, edited, saved, result, saving, sameDb, sameFile⟩ := accepts
  rcases addEmployee_cases result with ⟨impossible, -⟩ | ⟨-, other, appended⟩
  · cases impossible
  obtain ⟨dbHolds, header⟩ := appendEmployee_holds live.holds appended
  obtain ⟨last, again, savedDb, content⟩ :=
    outputFile_ok env.writes (Int.natCast_nonneg dbfd) world.file dbHolds
  rw [saving] at again
  obtain rfl := Except.ok.inj again
  have liveDb : db.Represents dbHolds.roster :=
    ⟨dbHolds, by rw [header]; exact live.version, by rw [header]; exact live.magic⟩
  refine ⟨dbHolds.roster, ⟨other, rfl⟩, ?_, ?_, fun complete => ?_⟩
  · rw [sameDb, savedDb]
    exact ⟨⟨rfl, dbHolds.count⟩, liveDb.version, liveDb.magic⟩
  · rw [sameDb, savedDb]
    rfl
  · rw [sameFile]
    exact content _ liveDb complete

end LowlevelAcademy.Server
