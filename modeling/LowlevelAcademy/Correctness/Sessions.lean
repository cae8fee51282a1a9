import LowlevelAcademy.Correctness.SlotTable
import LowlevelAcademy.Correctness.Appending
import LowlevelAcademy.Foundations.Ledger
import LowlevelAcademy.Server.Responses
import LowlevelAcademy.Server.Traces

/-! The server as a shared list: the poll loop refines a ledger whose sessions are the
connections, admitted by the hello. What clients are shown follows from the ledger.
-/

namespace LowlevelAcademy.Correctness

open LowlevelAcademy.Foundations
open LowlevelAcademy.Database
open LowlevelAcademy.Server

/-- The fields of a record, as readers of strings see them. -/
abbrev Fields := List UInt8 × List UInt8 × UInt32

/-- How far a connection has come: it waits for its hello, or was let in. -/
def admissionOf (client : ClientState) : Admission :=
  if client.fd = -1 then .absent else if client.state = .msg then .admitted else .waiting

/-- The ledger that a client table and the records of the database stand for. -/
def ledgerOf (states : Clients) (records : List Employee) : Ledger Slot Fields where
  standing := fun slot => admissionOf (states slot)
  entries := records.map recordFields

/-- What a step of the server means for the sessions: a message by its request, with the
records that were accepted for it or the entries of the reply.
-/
def sessionEvents : List Action → List (Ledger.Event Slot Fields)
  | [.accepted slot _] => [.opened slot]
  | [.disconnected slot] => [.closed slot]
  | .handled slot state buffer :: later =>
      match requestOf state buffer.toList with
      | .greeting => [.admitted slot]
      | .add =>
          (acceptedRequests later).map fun request =>
            .appended slot (recordFields (employeeOf request))
      | .list => [.listed slot ((repliesOf later).tail.map entryFields)]
      | .refused | .ignored => []
  | _ => []

variable {env : Env} {dbfd : Nat} {server next : State} {world : World} {slot : Slot}
variable {actions : List Action} {records : List Employee} {history : List (List Action)}

/-- Replacing a client's state and buffer moves its session alone. -/
theorem ledgerOf_setClient (world : World) {state : StateE} (buffer : Buffer)
    (connected : (world.clients slot).fd ≠ -1)
    : ledgerOf (world.setClient slot state buffer).clients records
      = (ledgerOf world.clients records).stand slot
          (if state = .msg then .admitted else .waiting) := by
  simp only [ledgerOf, Ledger.stand, Ledger.mk.injEq, and_true]
  funext other
  by_cases same : other = slot
  · subst same
    simp only [Function.update_self, World.setClient_self, admissionOf, if_neg connected]
  · rw [Function.update_of_ne same, World.setClient_other same]

/-- Where a connected client stands, by its state. -/
theorem standing_of_connected {states : Clients} (records : List Employee)
    (connected : (states slot).fd ≠ -1)
    : (ledgerOf states records).standing slot
      = if (states slot).state = .msg then .admitted else .waiting := by
  simp only [ledgerOf, admissionOf, if_neg connected]

/-- The step of the ledger behind a handled message. The request decides the event. -/
theorem ledger_of_handled {chunk : Chunk} {later : List Action}
    (holds : server.world.db.Holds records) (connected : (server.world.clients slot).fd ≠ -1)
    (terminated
      : (server.world.receive slot chunk).request slot = .add
        → nul ∈ addString ((server.world.receive slot chunk).message slot))
    (handled : Handled env dbfd (server.world.receive slot chunk) slot world later)
    : Run Ledger.Step (ledgerOf server.world.clients records)
        (sessionEvents (.handled slot (server.world.clients slot).state
          ((server.world.receive slot chunk).clients slot).buffer :: later))
        (ledgerOf world.clients (records ++ (acceptedRequests later).map employeeOf)) := by
  obtain ⟨state, buffer, same, moved⟩ :=
    handled.clients fun asked => Or.inl (terminated asked)
  rw [World.receive_setClient] at same
  rw [World.receive_state] at moved
  have request : requestOf (server.world.clients slot).state
      ((server.world.receive slot chunk).clients slot).buffer.toList
      = (server.world.receive slot chunk).request slot := by
    rw [World.request, World.receive_state]
  have asked := (server.world.receive slot chunk).request_asked slot rfl
  rw [World.receive_state] at asked
  have stays (other : (server.world.receive slot chunk).request slot ≠ .greeting)
      : ledgerOf world.clients records = ledgerOf server.world.clients records := by
    rw [if_neg other] at moved
    rw [same, ledgerOf_setClient _ _ connected, moved, ← standing_of_connected records connected,
      Ledger.stand_standing]
  have quiet (other : (server.world.receive slot chunk).request slot ≠ .add)
      : records ++ (acceptedRequests later).map employeeOf = records := by
    rcases handled.database with ⟨-, -, none⟩ | ⟨adds, -⟩
    · rw [none, List.map_nil, List.append_nil]
    · exact absurd adds other
  have standing := standing_of_connected records connected
  rw [sessionEvents, request]
  cases kind : (server.world.receive slot chunk).request slot with
  | greeting =>
      rw [kind, if_pos rfl] at moved
      obtain ⟨hello, -⟩ := kind ▸ asked
      rw [hello, if_neg (by decide)] at standing
      rw [quiet (by simp [kind]), same, moved,
        ledgerOf_setClient _ _ connected, if_pos rfl]
      exact .single (.admitted standing)
  | refused | ignored =>
      rw [quiet (by simp [kind]), stays (by simp [kind])]
      exact .nil
  | list =>
      obtain ⟨msg, -⟩ := kind ▸ asked
      rw [msg, if_pos rfl] at standing
      rw [quiet (by simp [kind]), stays (by simp [kind])]
      obtain ⟨header, entries, rfl, -, -, shown⟩ := listAnswer_of_handled handled holds kind
      rw [repliesOf_sent, List.tail_cons, shown]
      exact .single (.listed standing)
  | add =>
      obtain ⟨msg, -⟩ := kind ▸ asked
      rw [msg, if_pos rfl] at standing
      have kept := stays (by simp [kind])
      rcases handled.database with ⟨-, -, none⟩ | ⟨-, one, -⟩
      · rw [none, List.map_nil, List.map_nil, List.append_nil, kept]
        exact .nil
      · have grown : ledgerOf world.clients (records
              ++ [employeeOf ((server.world.receive slot chunk).addRequest slot)])
            = ⟨(ledgerOf server.world.clients records).standing,
                (ledgerOf server.world.clients records).entries ++ [recordFields
                  (employeeOf ((server.world.receive slot chunk).addRequest slot))]⟩ := by
          rw [← kept]
          simp [ledgerOf]
        rw [one, List.map_singleton, List.map_singleton, grown]
        exact .single (.appended standing)

/-- Every step of the poll loop is a run of the ledger, of one event or none. -/
theorem ledger_step (consistent : server.Consistent) (holds : server.world.db.Holds records)
    (terminated : TerminatedAdds server env)
    (result : pollLoopStep env dbfd server = .ok (next, actions))
    : Run Ledger.Step (ledgerOf server.world.clients records) (sessionEvents actions)
        (ledgerOf next.world.clients (records ++ (acceptedRequests actions).map employeeOf)) := by
  have connected {slot : Slot} (reading : server.reading = some slot)
      : (server.world.clients slot).fd ≠ -1 := by
    obtain ⟨polled, consistentAt⟩ := consistent.at
    exact (consistentAt.visits_of_reading reading).1
  have turn := pollLoopStep_turn result
  generalize next.world = world at turn ⊢
  cases turn with
  | idle | refused => simpa [sessionEvents, acceptedRequests] using .nil
  | @accepted slot free valid =>
      have absent : (ledgerOf server.world.clients records).standing slot = .absent := by
        simp only [ledgerOf, admissionOf, if_pos (findFreeSlot_some free)]
      have opened : ledgerOf (server.world.connect slot env.accept).clients records
          = (ledgerOf server.world.clients records).stand slot .waiting := by
        simp only [ledgerOf, Ledger.stand, Ledger.mk.injEq, and_true]
        funext other
        by_cases same : other = slot
        · subst same
          simp [admissionOf, World.connect_self, valid]
        · rw [Function.update_of_ne same, World.connect_other same]
      simpa [sessionEvents, acceptedRequests, opened] using Run.single (.opened absent)
  | @disconnected slot reading _ =>
      have present : (ledgerOf server.world.clients records).standing slot ≠ .absent := by
        rw [standing_of_connected records (connected reading)]
        split_ifs <;> simp
      have closed : ledgerOf (server.world.disconnect slot).clients records
          = (ledgerOf server.world.clients records).stand slot .absent := by
        simp only [ledgerOf, Ledger.stand, Ledger.mk.injEq, and_true]
        funext other
        by_cases same : other = slot
        · subst same
          simp [admissionOf, World.disconnect_self]
        · rw [Function.update_of_ne same, World.disconnect_other same]
      simpa [sessionEvents, acceptedRequests, closed] using Run.single (.closed present)
  | @handled slot chunk _ later reading received outcome =>
      rw [acceptedRequests_handled]
      exact ledger_of_handled holds (connected reading)
        (terminated slot reading chunk received) outcome

-----------------------------------------------------------------------------------------
-- Whole runs
-----------------------------------------------------------------------------------------

/-- The sockets behave, and every add string is terminated inside its buffer. -/
def SocketsTerminated : Guard := fun server env =>
  SocketsBehave server env ∧ TerminatedAdds server env

/-- Along a run what the steps mean for the sessions is a run of the ledger. By the step, with
the loop's invariant and the records of the database along the run.
-/
theorem ledger_run {db : Db} {file : OpenFile UInt8} {listenFd : Int32}
    (holds : db.Holds records)
    (run : Run (Step dbfd SocketsTerminated) (startServer db file listenFd) history server)
    : server.world.db.Holds (records ++ (acceptedRequests history.flatten).map employeeOf)
      ∧ Run Ledger.Step (ledgerOf initClients records) (history.flatMap sessionEvents)
          (ledgerOf server.world.clients
            (records ++ (acceptedRequests history.flatten).map employeeOf)) := by
  have kept := run.invariant
    (motive := fun history server =>
      server.Consistent
      ∧ server.world.db.Holds (records ++ (acceptedRequests history.flatten).map employeeOf)
      ∧ Run Ledger.Step (ledgerOf initClients records) (history.flatMap sessionEvents)
          (ledgerOf server.world.clients
            (records ++ (acceptedRequests history.flatten).map employeeOf)))
    ⟨startServer_consistent db file listenFd, by simpa [acceptedRequests, startServer] using holds,
      by simpa [acceptedRequests, startServer] using .nil⟩ ?_
  · exact kept.2
  · rintro history state actions after ⟨consistent, stored, ledger⟩ ⟨env, ⟨sockets, ends⟩, result⟩
    have grown := holds_step stored ⟨env, ends, result⟩
    have events := ledger.append (ledger_step consistent stored ends result)
    refine ⟨consistent.step sockets.1 sockets.2 (fun slot reading chunk received asked =>
      Or.inl (ends slot reading chunk received asked)) result, ?_, ?_⟩
    · simpa using grown
    · simpa using events

/-- No connection of a new server was let in. -/
theorem initClients_outside (slot : Slot)
    : (ledgerOf initClients records).standing slot ≠ .admitted := by
  simp [ledgerOf, admissionOf, initClients]

/-- The poll loop refines the ledger: from a new server on, while the sockets behave and all add
strings are terminated, what its steps mean for the sessions is a run of the ledger, which ends
with the connections as they are and the records in memory.
-/
theorem pollLoop_refines_ledger {db : Db} {file : OpenFile UInt8} {listenFd : Int32}
    (holds : db.Holds records)
    (run : Run (Step dbfd SocketsTerminated) (startServer db file listenFd) history server)
    : ∃ current,
        server.world.db.Holds current
        ∧ Run Ledger.Step (ledgerOf initClients records) (history.flatMap sessionEvents)
            (ledgerOf server.world.clients current) :=
  ⟨_, ledger_run holds run⟩

/-- A first client connects to a new server, greets and adds `a,b,1`. -/
theorem pollLoop_refines_ledger_add
    : ∃ (history : List (List Action)) (server : State) (current : List Employee),
        acceptedRequests history.flatten = [[97, 44, 98, 44, 49]]
        ∧ server.world.db.Holds current
        ∧ Run Ledger.Step (ledgerOf initClients []) (history.flatMap sessionEvents)
            (ledgerOf server.world.clients current) := by
  have empty : Db.Holds ⟨headerOf 0, some []⟩ [] := ⟨rfl, rfl⟩
  obtain ⟨history, server, -, -, run, one, -⟩ :=
    first_add_run 3 (.opened []) 4 empty (by decide)
      (show nul ∉ [97, 44, 98, 44, 49] by decide) (by decide) (by decide)
  have guarded : Run (Step 3 SocketsTerminated) _ history server :=
    run_of_orderly (fun _ _ orderly => ⟨⟨orderly.fresh, orderly.ready⟩, orderly.terminated⟩) run
  obtain ⟨current, stored, ledger⟩ := pollLoop_refines_ledger empty guarded
  exact ⟨history, server, current, one, stored, ledger⟩

/-- What clients are shown over a whole run of that kind. Every list reply shows the initial
records and then all that were added before it, on whichever connection; of two replies the later
one is the earlier one extended by what was added in between; and whoever adds or lists was let
in by a hello since the connection was opened.
-/
theorem lists_agree {db : Db} {file : OpenFile UInt8} {listenFd : Int32}
    (holds : db.Holds records)
    (run : Run (Step dbfd SocketsTerminated) (startServer db file listenFd) history server)
    : let events := history.flatMap sessionEvents
      (∀ before slot shown after,
        events = before ++ .listed slot shown :: after
        → shown = records.map recordFields ++ Ledger.appended before)
      ∧ (∀ before slot shown middle other later after,
        events = before ++ .listed slot shown :: (middle ++ .listed other later :: after)
        → later = shown ++ Ledger.appended middle)
      ∧ ∀ before (event : Ledger.Event Slot Fields) after,
          events = before ++ event :: after
          → event.Uses
          → ∃ earlier since,
              before = earlier ++ .admitted event.session :: since
              ∧ .closed event.session ∉ since := by
  obtain ⟨-, ledger⟩ := ledger_run holds run
  refine ⟨?_, ?_, ?_⟩
  · intro before slot shown after split
    rw [split] at ledger
    exact Ledger.listed_shows ledger
  · intro before slot shown middle other later after split
    rw [split] at ledger
    exact Ledger.listed_extends ledger
  · intro before event after split uses
    rw [split] at ledger
    exact Ledger.admitted_before_use initClients_outside ledger uses

/-- A first client connects to a new server, greets and lists its one record. -/
theorem lists_agree_one
    : ∃ (history : List (List Action)) (before : List (Ledger.Event Slot Fields)) (shown : _),
        history.flatMap sessionEvents = before ++ [.listed 0 shown]
        ∧ shown = [([97], [98], 1)] ++ Ledger.appended before := by
  let record := employeeOf [97, 44, 98, 44, 49]
  have holds : Db.Holds ⟨headerOf 1, some [record]⟩ [record] := ⟨rfl, rfl⟩
  obtain ⟨history, server, run, reading, state, sameDb, -⟩ :=
    first_client_reads 3 ⟨headerOf 1, some [record]⟩ (.opened []) 4
  let chunk := (ClientMessage.list (clearedBuffer.take 2)).chunk
  have asked : (server.world.receive 0 chunk).request 0 = .list := by
    rw [World.receive_request, state]
    exact requestOf_msg _ _
  have quiet (slot : Slot) (here : server.reading = some slot)
      : (server.world.receive slot chunk).request slot ≠ .add := by
    obtain rfl := Option.some.inj (reading.symm.trans here)
    simp [asked]
  let env := clientEnv (some chunk) (some fun _ => record)
  have terminated : TerminatedAdds server env := by
    rintro slot here _ ⟨⟩ adds
    exact absurd adds (quiet slot here)
  have going : ∃ next, pollLoopStep env 3 server = .ok next :=
    pollLoopStep_ok (show server.world.db.Holds [record] by rw [sameDb]; exact holds)
      (by rintro _ ⟨⟩ adds; exact absurd adds (quiet 0 reading)) reading rfl terminated
  obtain ⟨⟨next, actions⟩, result⟩ := going
  obtain ⟨later, -, same⟩ := pollLoopStep_message result reading rfl
  have listed : sessionEvents actions = [.listed 0 ((repliesOf later).tail.map entryFields)] := by
    rw [World.request, World.receive_state] at asked
    simp only [same, sessionEvents, asked]
  have guarded : Run (Step 3 SocketsTerminated)
      (startServer ⟨headerOf 1, some [record]⟩ (.opened []) 4) (history ++ [actions]) next := by
    refine .snoc (run_of_orderly (fun _ _ orderly =>
      ⟨⟨orderly.fresh, orderly.ready⟩, orderly.terminated⟩) run) ⟨env, ?_, result⟩
    have orderly := clientEnv_orderly terminated
    exact ⟨⟨orderly.fresh, orderly.ready⟩, terminated⟩
  have split : (history ++ [actions]).flatMap sessionEvents
      = history.flatMap sessionEvents ++ [.listed 0 ((repliesOf later).tail.map entryFields)] := by
    rw [List.flatMap_append, List.flatMap_singleton, listed]
  refine ⟨history ++ [actions], _, _, split, ?_⟩
  rw [(lists_agree holds guarded).1 _ 0 _ [] split]
  rfl

end LowlevelAcademy.Correctness
