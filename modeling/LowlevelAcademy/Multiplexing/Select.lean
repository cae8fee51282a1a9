import LowlevelAcademy.Database.Records
import LowlevelAcademy.Foundations.Descriptors
import LowlevelAcademy.Foundations.Runs

/-! The server that waits with `select`: its client table, the sets of descriptors, and one
iteration of its loop.
-/

namespace LowlevelAcademy.Multiplexing

open LowlevelAcademy.Foundations
open LowlevelAcademy.Database

/-- `MAX_CLIENTS` -/
abbrev maxClients : Nat := 256

/-- `BUFF_SIZE` -/
abbrev buffSize : Nat := 4096

/-- `FD_SETSIZE` -/
abbrev fdSetSize : Nat := 1024

/-- `state_e` -/
inductive StateE where
  | new
  | connected
  | disconnected
  deriving DecidableEq

/-- The buffer of a client. -/
abbrev Buffer := Bytes buffSize

/-- A buffer that `memset` has cleared. -/
def clearedBuffer : Buffer := fit buffSize nul []

/-- `clientstate_t`; a free slot has descriptor -1. -/
structure ClientState where
  fd : Int
  state : StateE
  buffer : Buffer
  deriving DecidableEq

/-- A valid index into `client_states`. -/
abbrev Slot := Fin maxClients

/-- `client_states` -/
abbrev Clients := Slot → ClientState

/-- `init_clients` -/
def initClients : Clients := fun _ => { fd := -1, state := .new, buffer := clearedBuffer }

/-- `find_free_slot`; no slot stands for the result -1. -/
def findFreeSlot (states : Clients) : Option Slot :=
  (List.finRange maxClients).find? fun slot => (states slot).fd = -1

-----------------------------------------------------------------------------------------
-- Sets of descriptors
-----------------------------------------------------------------------------------------

/-- `fd_set` -/
abbrev FdSet := Fin fdSetSize → Bool

/-- `FD_ZERO` -/
def FdSet.zero : FdSet := fun _ => false

/-- `FD_SET`; there is no result outside the array. -/
def FdSet.add (set : FdSet) (fd : Int) : Option FdSet :=
  if inside : 0 ≤ fd ∧ fd < fdSetSize then
    some (Function.update set ⟨fd.toNat, by omega⟩ true)
  else none

/-- `FD_ISSET`; there is no result outside the array. -/
def FdSet.isSet (set : FdSet) (fd : Int) : Option Bool :=
  if inside : 0 ≤ fd ∧ fd < fdSetSize then some (set ⟨fd.toNat, by omega⟩) else none

/-- What `select` leaves in a set: of the descriptors below `nfds` in it, those that are ready. -/
def FdSet.select (set : FdSet) (nfds : Int) (ready : Int → Bool) : FdSet := fun fd =>
  set fd && decide ((fd : Int) < nfds) && ready (fd : Nat)

/-- The loop that adds the active connections to `read_fds`, and what it makes of `nfds`. -/
def watchClients (states : Clients) : List Slot → FdSet → Int → Option (FdSet × Int)
  | [], set, nfds => some (set, nfds)
  | slot :: rest, set, nfds =>
      if (states slot).fd ≠ -1 then
        match set.add (states slot).fd with
        | none => none
        | some set =>
            watchClients states rest set
              (if (states slot).fd ≥ nfds then (states slot).fd + 1 else nfds)
      else watchClients states rest set nfds

-----------------------------------------------------------------------------------------
-- One iteration
-----------------------------------------------------------------------------------------

/-- The data that a successful `read` returns. -/
structure Chunk where
  bytes : List UInt8
  nonempty : bytes ≠ []
  fits : bytes.length ≤ buffSize

/-- What the system calls of one iteration return: the descriptors that are ready when `select`
returns (none when it fails), the descriptor `accept` returns, and the data that `read` returns
for a descriptor (none at the end of a connection or on failure).
-/
structure Env where
  select : Option (Int → Bool)
  accept : Int
  read : Int → Option Chunk

/-- What the server does: it puts a new connection into a slot or closes it, closes a client's
connection, or prints the buffer into which it has read.
-/
inductive Action where
  | accepted (slot : Slot) (fd : Int)
  | refused (fd : Int)
  | disconnected (slot : Slot) (fd : Int)
  | received (slot : Slot) (fd : Int) (chunk : List UInt8) (buffer : Buffer)

/-- Why the server stops: `select` failed, or a descriptor lies outside of a set. -/
inductive Halt where
  | exited
  | outOfSet

/-- A client after its descriptor was found ready, and what the server did. -/
def readClient (env : Env) (client : ClientState) (slot : Slot) : ClientState × Action :=
  match env.read client.fd with
  | none => (⟨-1, .disconnected, clearedBuffer⟩, .disconnected slot client.fd)
  | some chunk =>
      let buffer := fit buffSize nul (splice 0 chunk.bytes client.buffer.toList)
      (⟨client.fd, client.state, buffer⟩, .received slot client.fd chunk.bytes buffer)

/-- The loop over the clients behind `select`. -/
def serveClients (env : Env) (readFds : FdSet)
    : List Slot → Clients → Except Halt (Clients × List Action)
  | [], states => .ok (states, [])
  | slot :: rest, states =>
      if (states slot).fd ≠ -1 then
        match readFds.isSet (states slot).fd with
        | none => .error .outOfSet
        | some true =>
            let (client, action) := readClient env (states slot) slot
            match serveClients env readFds rest (Function.update states slot client) with
            | .error halt => .error halt
            | .ok (states, actions) => .ok (states, action :: actions)
        | some false => serveClients env readFds rest states
      else serveClients env readFds rest states

/-- A new connection, which goes into a free slot or is closed. -/
def acceptClient (env : Env) (states : Clients) : Clients × List Action :=
  match findFreeSlot states with
  | none => (states, [.refused env.accept])
  | some slot =>
      (Function.update states slot ⟨env.accept, .connected, (states slot).buffer⟩,
        [.accepted slot env.accept])

/-- One iteration of the loop in `main`. A failed `accept` goes back to the start. -/
def iteration (env : Env) (listenFd : Int) (states : Clients)
    : Except Halt (Clients × List Action) :=
  match FdSet.zero.add listenFd with
  | none => .error .outOfSet
  | some set =>
      match watchClients states (List.finRange maxClients) set (listenFd + 1), env.select with
      | none, _ => .error .outOfSet
      | some _, none => .error .exited
      | some (watched, nfds), some ready =>
          let readFds := watched.select nfds ready
          match readFds.isSet listenFd with
          | none => .error .outOfSet
          | some true =>
              if env.accept = -1 then .ok (states, [])
              else
                let (states, arrival) := acceptClient env states
                match serveClients env readFds (List.finRange maxClients) states with
                | .error halt => .error halt
                | .ok (states, actions) => .ok (states, arrival ++ actions)
          | some false => serveClients env readFds (List.finRange maxClients) states

/-- What an action does with descriptors. A refused connection is closed at once. -/
def Action.uses : Action → List (DescriptorUse Int)
  | .accepted _ fd => [.opens fd]
  | .refused fd => [.opens fd, .closes fd]
  | .disconnected _ fd => [.reads fd, .closes fd]
  | .received _ fd _ _ => [.reads fd]

/-- `accept` fails or returns the lowest descriptor that is not open. -/
def KernelAccepts (opened : Finset Int) (env : Env) : Prop :=
  env.accept = -1 ∨ IsLeast { fd | 0 ≤ fd ∧ fd ∉ opened } env.accept

/-- An iteration with its effect on the open descriptors. -/
def Step (listenFd : Int) (process : Clients × Finset Int) (actions : List Action)
    (next : Clients × Finset Int)
    : Prop :=
  ∃ env,
    KernelAccepts process.2 env
    ∧ iteration env listenFd process.1 = .ok (next.1, actions)
    ∧ applyUses process.2 (actions.flatMap Action.uses) = some next.2

end LowlevelAcademy.Multiplexing
