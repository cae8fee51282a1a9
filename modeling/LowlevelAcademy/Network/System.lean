import LowlevelAcademy.Client.Process
import LowlevelAcademy.Server.Responses
import LowlevelAcademy.Server.Traces

/-! Clients and the server together: any number of clients that run `main`, the server's poll
loop, and between them a connection for each client that delivers messages whole and in order.
-/

namespace LowlevelAcademy.Network

open LowlevelAcademy.Foundations
open LowlevelAcademy.Database
open LowlevelAcademy.Server
open LowlevelAcademy.Client

/-- A client's connection: not made yet, waiting for `accept`, in a slot of the server, or closed
by the server.
-/
inductive Link where
  | unmade
  | queued
  | accepted (slot : Slot)
  | ended
  deriving DecidableEq

/-- A client with its connection, and the messages in flight in both directions. -/
structure Session where
  phase : Phase
  link : Link
  toServer : List (List UInt8)
  toClient : List (List UInt8)

/-- The server and its clients. -/
structure System (ι : Type*) where
  server : State
  sessions : ι → Session

/-- The server and the clients before any of them connects. -/
def startSystem (ι : Type*) (db : Db) (file : OpenFile UInt8) (listenFd : Int32)
    : System ι where
  server := startServer db file listenFd
  sessions := fun _ => ⟨.starting, .unmade, [], []⟩

/-- What happens in the system. A step of the server names the client it is about, if any. -/
inductive Event (ι : Type*) where
  | connected (client : ι)
  | wrote (client : ι) (routine : Routine)
  | read (client : ι)
  | returned (client : ι) (routine : Routine) (call : Call)
  | closed (client : ι)
  | served (client : Option ι) (actions : List Action)

variable {ι : Type*} [DecidableEq ι]

/-- The system with one client's session and the server replaced. -/
def System.put (sys : System ι) (server : State) (client : ι) (session : Session) : System ι where
  server := server
  sessions := Function.update sys.sessions client session

omit [DecidableEq ι] in
/-- A read from the slot's connection does not block: a message is there, or its end. -/
def System.Readable (sys : System ι) (slot : Slot) : Prop :=
  ∃ client,
    (sys.sessions client).link = .accepted slot
    ∧ ((sys.sessions client).toServer ≠ [] ∨ (sys.sessions client).phase = .closed)

/-- What the system calls of the server promise: `accept` returns a descriptor that is not in
use, and `poll` reports an entry with `POLLIN` and only when a read from it does not block.
-/
structure Contract (sys : System ι) (env : Env) : Prop where
  fresh : FreshAccept sys.server env
  polled : PolledPollin sys.server env
  ready : ∀ slot, sys.server.Reported env slot → sys.Readable slot

/-- The steps of the system, in any order. A read of the client or of the server delivers the
next message whole; the server finds the end of a connection once it is closed and drained. No
client is refused, and a step in which the server would stop is none.
-/
inductive SystemStep (args : ι → Args) (dbfd : Nat)
    : System ι → Event ι → System ι → Prop
  | connect {sys client} (before : sys.sessions client = ⟨.starting, .unmade, [], []⟩)
    : SystemStep args dbfd sys (.connected client)
        (sys.put sys.server client ⟨.calling .sendHello, .queued, [], []⟩)
  | write {sys client routine link toServer toClient}
    (before : sys.sessions client = ⟨.calling routine, link, toServer, toClient⟩)
    : SystemStep args dbfd sys (.wrote client routine)
        (sys.put sys.server client
          ⟨.waiting routine, link, toServer ++ [routine.request], toClient⟩)
  | hello {sys client link toServer message rest} {read : ReadOutcome buffSize}
    (before : sys.sessions client = ⟨.waiting .sendHello, link, toServer, message :: rest⟩)
    (delivers : Delivers read message)
    : SystemStep args dbfd sys (.returned client .sendHello (sendHello read))
        (sys.put sys.server client
          ⟨afterCall (args client) .sendHello (sendHello read).status, link, toServer, rest⟩)
  | add {sys client employeeStr link toServer message rest} {read : ReadOutcome buffSize}
    (before
      : sys.sessions client
        = ⟨.waiting (.sendEmployee employeeStr), link, toServer, message :: rest⟩)
    (delivers : Delivers read message)
    : SystemStep args dbfd sys
        (.returned client (.sendEmployee employeeStr) (sendEmployee employeeStr read))
        (sys.put sys.server client
          ⟨afterCall (args client) (.sendEmployee employeeStr)
            (sendEmployee employeeStr read).status, link, toServer, rest⟩)
  | header {sys client link toServer message rest} {read : ReadOutcome protoHeaderSize}
    (before : sys.sessions client = ⟨.waiting .listEmployees, link, toServer, message :: rest⟩)
    (delivers : Delivers read message)
    : SystemStep args dbfd sys (.read client)
        (sys.put sys.server client ⟨.listing read [], link, toServer, rest⟩)
  | entry {sys client header entries link toServer message rest}
    {read : ReadOutcome employeeSize}
    (before : sys.sessions client = ⟨.listing header entries, link, toServer, message :: rest⟩)
    (more : entries.length < announced header)
    (delivers : Delivers read message)
    : SystemStep args dbfd sys (.read client)
        (sys.put sys.server client ⟨.listing header (entries ++ [read]), link, toServer, rest⟩)
  | list {sys client header entries link toServer toClient}
    (before : sys.sessions client = ⟨.listing header entries, link, toServer, toClient⟩)
    (all : entries.length = announced header)
    : SystemStep args dbfd sys
        (.returned client .listEmployees (listEmployees header (entryReads entries)))
        (sys.put sys.server client
          ⟨afterCall (args client) .listEmployees
            (listEmployees header (entryReads entries)).status, link, toServer, toClient⟩)
  | close {sys client link toServer toClient}
    (before : sys.sessions client = ⟨.leaving, link, toServer, toClient⟩)
    : SystemStep args dbfd sys (.closed client)
        (sys.put sys.server client ⟨.closed, link, toServer, toClient⟩)
  | idle {sys : System ι} {env server} (contract : Contract sys env)
    (step : pollLoopStep env dbfd sys.server = .ok (server, []))
    : SystemStep args dbfd sys (.served none []) ⟨server, sys.sessions⟩
  | accept {sys client phase toServer toClient env server slot}
    (before : sys.sessions client = ⟨phase, .queued, toServer, toClient⟩)
    (contract : Contract sys env)
    (step : pollLoopStep env dbfd sys.server = .ok (server, [.accepted slot env.accept]))
    : SystemStep args dbfd sys (.served (some client) [.accepted slot env.accept])
        (sys.put server client ⟨phase, .accepted slot, toServer, toClient⟩)
  | serve {sys client phase slot message rest toClient env chunk server actions}
    (before : sys.sessions client = ⟨phase, .accepted slot, message :: rest, toClient⟩)
    (contract : Contract sys env)
    (reading : sys.server.reading = some slot)
    (received : env.read = some chunk)
    (whole : chunk.bytes = message)
    (step : pollLoopStep env dbfd sys.server = .ok (server, actions))
    : SystemStep args dbfd sys (.served (some client) actions)
        (sys.put server client ⟨phase, .accepted slot, rest, toClient ++ repliesOf actions⟩)
  | hangUp {sys client slot toClient env server actions}
    (before : sys.sessions client = ⟨.closed, .accepted slot, [], toClient⟩)
    (contract : Contract sys env)
    (reading : sys.server.reading = some slot)
    (ended : env.read = none)
    (step : pollLoopStep env dbfd sys.server = .ok (server, actions))
    : SystemStep args dbfd sys (.served (some client) actions)
        (sys.put server client ⟨.closed, .ended, [], toClient⟩)

/-- A run of the system. -/
abbrev SystemRun (args : ι → Args) (dbfd : Nat) : System ι → List (Event ι) → System ι → Prop :=
  Run (SystemStep args dbfd)

-----------------------------------------------------------------------------------------
-- What a history did to the database
-----------------------------------------------------------------------------------------

omit [DecidableEq ι] in
/-- The add requests that the server accepted in an event. -/
def Event.accepted : Event ι → List (List UInt8)
  | .served _ actions => acceptedRequests actions
  | _ => []

/-- The add requests of a client that the server accepted in an event. -/
def Event.acceptedFor (client : ι) : Event ι → List (List UInt8)
  | .served (some other) actions => if other = client then acceptedRequests actions else []
  | _ => []

omit [DecidableEq ι] in
/-- The records after a history that started with the given ones. -/
def stored (records : List Employee) (history : List (Event ι)) : List Employee :=
  records ++ (history.flatMap Event.accepted).map employeeOf

/-- The add requests of a client that the server accepted in a history. -/
def acceptedFor (client : ι) (history : List (Event ι)) : List (List UInt8) :=
  history.flatMap (Event.acceptedFor client)

end LowlevelAcademy.Network
