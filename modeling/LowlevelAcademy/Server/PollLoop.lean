import LowlevelAcademy.Foundations.Runs
import LowlevelAcademy.Server.Handler

/-! The poll loop of the server as a state machine: one step rebuilds the poll set, polls and
accepts, or takes one turn of the loop over the ready entries.
-/

namespace LowlevelAcademy.Server

open LowlevelAcademy.Foundations
open LowlevelAcademy.Database

/-- `struct pollfd`; the requested events are always `POLLIN`. -/
structure PollFd where
  fd : Int32
  revents : UInt16
  deriving DecidableEq

/-- `POLLIN` -/
def pollin : UInt16 := 1

/-- `revents & POLLIN` -/
def PollFd.readable (entry : PollFd) : Bool := entry.revents &&& pollin != 0

/-- The array `fds`; entry 0 belongs to the listening socket. -/
abbrev Fds := Fin (maxClients + 1) → PollFd

/-- `fds[i].fd = fd` -/
def Fds.setFd (fds : Fds) (i : Nat) (fd : Int32) : Fds := fun j =>
  if (j : Nat) = i then ⟨fd, (fds j).revents⟩ else fds j

/-- The loop that enters the connected clients into `fds` from index `fdsI` on. Entries behind
them keep what earlier iterations left there.
-/
def rebuildFds (states : Clients) : List Slot → Nat → Fds → Fds
  | [], _, fds => fds
  | slot :: rest, fdsI, fds =>
      if (states slot).fd ≠ -1 then
        rebuildFds states rest (fdsI + 1) (fds.setFd fdsI (states slot).fd)
      else rebuildFds states rest fdsI fds

/-- What `poll` leaves in `fds`: it reports the events of the first `nfds` entries. -/
def Fds.report (fds : Fds) (nfds : Nat) (events : Fin (maxClients + 1) → UInt16) : Fds :=
  fun j => ⟨(fds j).fd, if (j : Nat) < nfds then events j else (fds j).revents⟩

/-- What `poll` returns: how many of the first `nfds` entries have events. -/
def readyCount (nfds : Nat) (events : Fin (maxClients + 1) → UInt16) : Nat :=
  (List.finRange (maxClients + 1)).countP fun j => j.val < nfds && events j != 0

/-- Where the server stands: at the start of an iteration, or in the loop over the entries
with index `i` and the events that are left.
-/
inductive Position where
  | poll
  | scan (i nEvents : Nat)
  deriving DecidableEq

/-- The variables of `poll_loop` together with the client table and the database. -/
structure State where
  world : World
  fds : Fds
  nfds : Nat
  position : Position

/-- The world after `accept` put a new connection into a free slot. The slot's buffer is not
touched.
-/
def World.connect (world : World) (slot : Slot) (fd : Int32) : World where
  clients := Function.update world.clients slot ⟨fd, .hello, (world.clients slot).buffer⟩
  db := world.db
  file := world.file

/-- The world after a client's connection ended. -/
def World.disconnect (world : World) (slot : Slot) : World where
  clients := Function.update world.clients slot ⟨-1, .disconnected, clearedBuffer⟩
  db := world.db
  file := world.file

/-- The world after `read` put data into a client's buffer, over what was there. -/
def World.receive (world : World) (slot : Slot) (chunk : Chunk) : World :=
  world.setClient slot (world.clients slot).state
    ((world.clients slot).buffer.store 0 chunk.bytes)

/-- The start of an iteration: the poll set is rebuilt, `poll` waits, and a new connection is
accepted. A failed `accept` goes back to the start.
-/
def pollStep (env : Env) (server : State) : Except Halt (State × List Action) :=
  match env.poll with
  | none => .error .exited
  | some events =>
      let world := server.world
      let fds := (rebuildFds world.clients (List.finRange maxClients) 1 server.fds).report
        server.nfds events
      let nEvents := readyCount server.nfds events
      if (fds 0).readable then
        if env.accept = -1 then .ok (⟨world, fds, server.nfds, .poll⟩, [])
        else
          match findFreeSlot world.clients with
          | none =>
              .ok (⟨world, fds, server.nfds, .scan 1 (nEvents - 1)⟩, [.refused env.accept])
          | some slot =>
              .ok (⟨world.connect slot env.accept, fds, server.nfds + 1,
                .scan 1 (nEvents - 1)⟩, [.accepted slot env.accept])
      else .ok (⟨world, fds, server.nfds, .scan 1 nEvents⟩, [])

/-- Reading from a ready client: it is disconnected, or the data is handled as one message. -/
def serveClient (env : Env) (dbfd : Nat) (world : World) (nfds : Nat) (slot : Slot)
    : Except Halt (World × Nat × List Action) :=
  match env.read with
  | none => .ok (world.disconnect slot, nfds - 1, [.disconnected slot])
  | some chunk =>
      let world := world.receive slot chunk
      let client := world.clients slot
      match handleClientFsm env dbfd world slot with
      | .error halt => .error halt
      | .ok (world, actions) =>
          .ok (world, nfds, .handled slot client.state client.buffer :: actions)

/-- One turn of the loop over the entries, or its end. -/
def scanStep (env : Env) (dbfd : Nat) (server : State) (i nEvents : Nat)
    : Except Halt (State × List Action) :=
  if i ≤ server.nfds ∧ 0 < nEvents then
    if inside : i < maxClients + 1 then
      let entry := server.fds ⟨i, inside⟩
      if entry.readable then
        match findSlotByFd server.world.clients entry.fd with
        | none => .error .badSlot
        | some slot =>
            match serveClient env dbfd server.world server.nfds slot with
            | .error halt => .error halt
            | .ok (world, nfds, actions) =>
                .ok (⟨world, server.fds, nfds, .scan (i + 1) (nEvents - 1)⟩, actions)
      else .ok (⟨server.world, server.fds, server.nfds, .scan (i + 1) nEvents⟩, [])
    else .error .outOfBounds
  else .ok (⟨server.world, server.fds, server.nfds, .poll⟩, [])

/-- One step of `poll_loop`. -/
def pollLoopStep (env : Env) (dbfd : Nat) (server : State)
    : Except Halt (State × List Action) :=
  match server.position with
  | .poll => pollStep env server
  | .scan i nEvents => scanStep env dbfd server i nEvents

/-- `poll_loop` before its first iteration. -/
def startServer (db : Db) (file : OpenFile UInt8) (listenFd : Int32) : State where
  world := ⟨initClients, db, file⟩
  fds := fun j => if j = 0 then ⟨listenFd, 0⟩ else ⟨0, 0⟩
  nfds := 1
  position := .poll

-----------------------------------------------------------------------------------------
-- Runs
-----------------------------------------------------------------------------------------

/-- A condition on what the system calls return in a state. -/
abbrev Guard := State → Env → Prop

/-- A step whose system calls meet the guard, labelled with what the server did. -/
def Step (dbfd : Nat) (guard : Guard) (server : State) (actions : List Action)
    (next : State)
    : Prop :=
  ∃ env, guard server env ∧ pollLoopStep env dbfd server = .ok (next, actions)

/-- The client that the next turn of the loop reads from. -/
def State.reading (server : State) : Option Slot :=
  match server.position with
  | .poll => none
  | .scan i nEvents =>
      if i ≤ server.nfds ∧ 0 < nEvents then
        if inside : i < maxClients + 1 then
          if (server.fds ⟨i, inside⟩).readable then
            findSlotByFd server.world.clients (server.fds ⟨i, inside⟩).fd
          else none
        else none
      else none

/-- Whenever the next turn examines an entry, it is one of these. -/
def State.Examines (server : State) (entries : Nat → Prop) : Prop :=
  ∀ i nEvents, server.position = .scan i nEvents → i ≤ server.nfds → 0 < nEvents → entries i

/-- The entry exists, and a ready one leads to such a slot. -/
def State.Finds (server : State) (slots : Slot → Prop) (i : Nat) : Prop :=
  ∃ inside : i < maxClients + 1,
    (server.fds ⟨i, inside⟩).readable
    → ∃ slot,
        findSlotByFd server.world.clients (server.fds ⟨i, inside⟩).fd = some slot ∧ slots slot

/-- Whenever a read delivers an add request, its string has the given property in the client's
buffer.
-/
def AddStrings (property : List UInt8 → Prop) : Guard := fun server env =>
  ∀ slot ∈ server.reading, ∀ chunk ∈ env.read,
    (server.world.receive slot chunk).request slot = .add
      → property (addString ((server.world.receive slot chunk).message slot))

/-- Every add string is terminated inside the client's buffer. -/
abbrev TerminatedAdds : Guard := AddStrings (nul ∈ ·)

/-- Every add string ends inside the client's buffer. -/
abbrev EndedAdds : Guard := AddStrings EndsInside

/-- `accept` returns no descriptor that a client has. -/
def FreshAccept : Guard := fun server env =>
  ∀ slot, env.accept ≠ -1 → (server.world.clients slot).fd ≠ env.accept

/-- Every entry that `poll` reports as ready has `POLLIN` set. -/
def ReadyPollin : Guard := fun _ env =>
  ∀ events ∈ env.poll, ∀ j, events j ≠ 0 → events j &&& pollin ≠ 0

/-- Every polled entry that `poll` reports as ready has `POLLIN` set. -/
def PolledPollin : Guard := fun server env =>
  ∀ events ∈ env.poll, ∀ j, j.val < server.nfds → events j ≠ 0 → events j &&& pollin ≠ 0

/-- All writes to the database file are complete. -/
def WritesComplete : Guard := fun _ env => ∀ i, env.writes i = .complete

end LowlevelAcademy.Server
