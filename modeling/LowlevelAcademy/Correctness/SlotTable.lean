import LowlevelAcademy.Server.Progress

/-! The client table and the poll set over whole runs: they stay in step as long as every add
string ends inside its client's buffer, and an add string that does not can break them.
-/

namespace LowlevelAcademy.Correctness

open LowlevelAcademy.Foundations
open LowlevelAcademy.Database
open LowlevelAcademy.Server

/-- At the start of an iteration the slots and the poll set agree: `nfds` counts the listening
socket and the connected clients, the rebuilt entries are their descriptors once each, and the
slots are used consistently.
-/
structure PollSetMatches (server : State) : Prop where
  nfds : server.nfds = 1 + server.world.clients.connected.length
  entries
    : ∀ fd,
        (∃ j : Fin (maxClients + 1),
          1 ≤ j.val ∧ j.val < server.nfds
          ∧ (rebuildFds server.world.clients (List.finRange maxClients) 1 server.fds j).fd = fd)
        ↔ fd ≠ -1 ∧ ∃ slot, (server.world.clients slot).fd = fd
  once
    : ∀ j k : Fin (maxClients + 1),
        1 ≤ j.val → j.val < server.nfds → 1 ≤ k.val → k.val < server.nfds
        → (rebuildFds server.world.clients (List.finRange maxClients) 1 server.fds j).fd
          = (rebuildFds server.world.clients (List.finRange maxClients) 1 server.fds k).fd
        → j = k
  distinct
    : ∀ slot other,
        (server.world.clients slot).fd ≠ -1
        → (server.world.clients other).fd = (server.world.clients slot).fd
        → other = slot
  active
    : ∀ slot,
        (server.world.clients slot).state = .hello ∨ (server.world.clients slot).state = .msg
        ↔ (server.world.clients slot).fd ≠ -1
  cleared
    : ∀ slot,
        (server.world.clients slot).fd = -1
        → (server.world.clients slot).buffer.toList = List.replicate buffSize nul
  few : server.world.clients.connected.length ≤ maxClients

/-- Within an iteration the entry that is looked at exists, and a ready one leads to the slot
of a connected client.
-/
def LookupsFind (server : State) : Prop :=
  server.Examines (server.Finds fun slot => (server.world.clients slot).fd ≠ -1)

/-- Whenever the next step refuses a connection, it changes no slot. -/
def RefusalKeeps (dbfd : Nat) (server : State) : Prop :=
  ∀ env fd next,
    pollLoopStep env dbfd server = .ok (next, [.refused fd])
    → next.world.clients = server.world.clients

/-- What the poll loop keeps up about its slots, in every state. -/
structure SlotsSound (dbfd : Nat) (server : State) : Prop where
  start : server.position = .poll → PollSetMatches server
  lookups : LookupsFind server
  refusal : RefusalKeeps dbfd server

/-- `accept` returns descriptors that are not open, and ready entries have `POLLIN` set. -/
def SocketsBehave : Guard := fun server env => FreshAccept server env ∧ ReadyPollin server env

/-- A refusal is a turn that keeps the world. -/
theorem refusalKeeps (dbfd : Nat) (server : State) : RefusalKeeps dbfd server := by
  intro env fd next result
  have turn := pollLoopStep_turn result
  generalize next.world = world at turn ⊢
  cases turn with
  | refused => rfl

/-- The loop's invariant gives the agreement of slots and poll set. -/
theorem pollSetMatches_of_consistent {server : State} (consistent : server.Consistent)
    : PollSetMatches server := by
  have few := server.world.clients.connected_length_le
  have count := consistent.count
  have entry (k : Nat) (inside : k < server.world.clients.connected.length) :=
    rebuildFds_connected server.world.clients server.fds inside
  have scanning := @Scanning.start server (fun _ => 0) _ _ consistent (by simp) rfl rfl
  refine ⟨count, ?_, ?_, fun _ _ => consistent.tidy.distinct,
    fun slot => (consistent.tidy.active slot).symm, ?_, few⟩
  · intro fd
    constructor
    · rintro ⟨j, behind, below, rfl⟩
      obtain ⟨slot, same, connected⟩ := scanning.known j behind below
      simp only [Fds.report] at same
      exact ⟨same ▸ connected, slot, same⟩
    · rintro ⟨connected, slot, rfl⟩
      obtain ⟨k, inside, found⟩ := List.mem_iff_getElem.mp (Clients.mem_connected.mpr connected)
      exact ⟨⟨k + 1, by omega⟩, by simp, by simp only; omega, by rw [entry k inside, found]⟩
  · intro j k behindJ belowJ behindK belowK same
    exact scanning.once j k behindJ behindK belowJ belowK same
  · intro slot free
    rw [consistent.tidy.cleared slot free, clearedBuffer, fit_toList_of_le (Nat.zero_le _)]
    rfl

/-- The loop's invariant makes every lookup succeed. -/
theorem lookupsFind_of_consistent {server : State} (consistent : server.Consistent)
    : LookupsFind server := by
  intro i nEvents position _ more
  obtain ⟨polled, scanning⟩ := consistent.scanning i nEvents position
  obtain ⟨below, inside⟩ := scanning.inside more
  obtain ⟨slot, found, -, connected⟩ := scanning.lookup consistent.tidy inside below
  exact ⟨inside, fun _ => ⟨slot, found, connected⟩⟩

/-- In every run in which all add strings end inside their client's buffer, slots and poll set
agree at the start of each iteration and every lookup within an iteration succeeds.
-/
theorem slots_sound {dbfd : Nat} {db : Db} {file : OpenFile UInt8} {listenFd : Int32}
    {history : List (List Action)} {server : State}
    (run
      : Run (Step dbfd fun state env => SocketsBehave state env ∧ EndedAdds state env)
          (startServer db file listenFd) history server)
    : SlotsSound dbfd server := by
  have consistent := (startServer_consistent db file listenFd).run
    (fun _ _ allowed => ⟨allowed.1.1, allowed.1.2, allowed.2⟩) run
  exact ⟨fun _ => pollSetMatches_of_consistent consistent, lookupsFind_of_consistent consistent,
    refusalKeeps dbfd server⟩

-----------------------------------------------------------------------------------------
-- Add strings that run into the next slot
-----------------------------------------------------------------------------------------

/-- The memory of the next slot starts the memory behind a slot. -/
private theorem following_next (states : Clients) {slot follower : Slot}
    (next : follower.val = slot.val + 1)
    : ∃ rest, states.following slot = (states follower).toBytes ++ rest := by
  have inside : slot.val + 1 < (List.finRange maxClients).length := by
    rw [List.length_finRange]
    omega
  have head : (List.finRange maxClients)[slot.val + 1] = follower := by
    simp [← next]
  refine ⟨((List.finRange maxClients).drop (slot + 1 + 1)).flatMap fun other =>
    (states other).toBytes, ?_⟩
  rw [Clients.following, List.drop_eq_getElem_cons inside, head, List.flatMap_cons]

/-- A buffer full of text makes the tokenizer stop in the next slot, at the first byte of its
descriptor when that is 44, the code of the comma. The byte becomes the terminator of the
name, and the bytes behind it are no address, so the request is rejected.
-/
private theorem addEmployee_runsOn (fresh : Option (Nat → Employee)) (db : Db)
    {text : List UInt8} (nonempty : text ≠ []) (clean : nul ∉ text) (inside : comma ∉ text)
    (rest : List UInt8)
    : addEmployee fresh db (text ++ comma :: nul :: rest)
      = .ok ⟨.error, db, text ++ nul :: nul :: rest⟩ := by
  have distinct : nul ≠ comma := by decide
  have name := strtok_more [] (nul :: rest) distinct
    (List.forall_mem_nil (fun c => c = comma)) nonempty clean inside
  have address := strtok_none (text ++ [nul]) rest distinct
    (List.forall_mem_nil (fun c => c = comma))
  simp only [List.nil_append, List.length_nil, Nat.zero_add, Nat.add_zero] at name address
  simp only [List.length_append, List.length_singleton, List.append_assoc,
    List.singleton_append] at address
  simp only [addEmployee, name, address]

/-- In the table after such a scan only the descriptor of the next slot differs. -/
private theorem storeFrom_runsOn {states : Clients} {slot follower : Slot}
    {text rest : List UInt8} (size : text.length = buffSize - protoHeaderSize)
    (next : follower.val = slot.val + 1)
    (following : states.following slot = comma :: nul :: nul :: nul :: rest) (other : Slot)
    : (states.storeFrom slot protoHeaderSize (text ++ nul :: nul :: nul :: nul :: rest) other).fd
      = if other = follower then 0 else (states other).fd := by
  rw [Clients.storeFrom]
  split_ifs with before clash own clash' isNext
  · have order : follower.val < slot.val := clash ▸ before
    omega
  · rfl
  · have same : follower.val = slot.val := congrArg Fin.val (clash'.symm.trans own)
    omega
  · rw [own]
  · subst isNext
    have first : (other : Nat) - slot - 1 = 0 := by omega
    simp only [first, Nat.zero_mul, Nat.add_zero, slice, ← size, List.drop_left]
    rfl
  · obtain ⟨k, distance⟩ : ∃ k, (other : Nat) - slot - 1 = k + 1 :=
      ⟨other - slot - 2, by
        have behind : (slot : Nat) < other := lt_of_le_of_ne (not_lt.mp before)
          fun same => own (Fin.ext same.symm)
        have differs : (other : Nat) ≠ follower := fun same => isNext (Fin.ext same)
        omega⟩
    have start : ((k + 1) * clientSize : Nat) = (k * clientSize + (clientSize - 1)) + 1 := by
      simp only [clientSize]
      omega
    rw [← states.ofBytes_following (lt_of_le_of_ne (not_lt.mp before) (Ne.symm own)), following,
      distance]
    simp only [slice, ← size, ← List.drop_drop, List.drop_left, start, List.drop_succ_cons]

/-- Handling such a request overwrites the descriptor 44 of the client in the next slot with 0
and leaves all other descriptors alone.
-/
theorem handleClientFsm_runsOn (env : Env) (dbfd : Nat) {world : World} {slot : Slot}
    (follower : Slot) (asked : world.request slot = .add)
    (clean : nul ∉ addString (world.message slot))
    (inside : comma ∉ addString (world.message slot)) (next : follower.val = slot.val + 1)
    (fd : (world.clients follower).fd = 44)
    : ∃ after actions,
        handleClientFsm env dbfd world slot = .ok (after, actions)
        ∧ ∀ other,
            (after.clients other).fd
              = if other = follower then 0 else (world.clients other).fd := by
  obtain ⟨behind, following⟩ := following_next world.clients next
  have size : (addString (world.message slot)).length = buffSize - protoHeaderSize := by simp
  have nonempty : addString (world.message slot) ≠ [] := by
    intro none
    rw [none] at size
    simp [buffSize, protoHeaderSize] at size
  have bytes : (world.clients follower).toBytes
      = comma :: nul :: nul :: nul :: (leBytes 4 (world.clients follower).state.code.toNat
        ++ (world.clients follower).buffer.toList) := by
    rw [ClientState.toBytes, fd, List.append_assoc]
    rfl
  simp only [bytes, List.cons_append] at following
  generalize leBytes 4 (world.clients follower).state.code.toNat
    ++ (world.clients follower).buffer.toList ++ behind = rest at following
  have scanned := addEmployee_runsOn env.realloc world.db nonempty clean inside
    (nul :: nul :: rest)
  have sameDb (buffer : Buffer) : (world.setClient slot .msg buffer).db = world.db := rfl
  rw [handleClientFsm_add_eq env dbfd world slot asked, handleAdd, memoryFrom_swapHeader,
    following, sameDb, scanned]
  refine ⟨_, _, rfl, fun other => ?_⟩
  let received := (world.setClient slot .msg (world.clients slot).buffer.swapHeader).clients
  have stored := @storeFrom_runsOn received slot follower _ rest size next
    (by simpa only [received, World.setClient, Clients.following_update] using following)
  have kept (client : Slot) : (received client).fd = (world.clients client).fd := by
    by_cases same : client = slot <;> simp [received, World.setClient, same]
  have own := stored slot
  have other' := stored other
  rw [kept] at own other'
  by_cases same : other = slot
  · subst same
    simpa [World.setClient, received] using own
  · simpa [World.setClient, received, Function.update_of_ne same] using other'

/-- A full buffer of bytes that is an add request without terminator or comma. -/
def unendedBytes : List UInt8 :=
  wireHeader MsgType.employeeAddReq.code 1 ++ List.replicate 4090 97

theorem unendedBytes_length : unendedBytes.length = buffSize := by
  rw [unendedBytes, List.length_append, wireHeader_length, List.length_replicate]

/-- A read of these bytes. -/
def unendedAdd : Chunk where
  bytes := unendedBytes
  nonempty := List.ne_nil_of_length_pos (by rw [unendedBytes_length]; decide)
  fits := le_of_eq unendedBytes_length

/-- In `STATE_MSG` they are an add request, whose string is plain text up to the end of the
buffer.
-/
theorem unendedAdd_request {world : World} {slot : Slot}
    (state : (world.clients slot).state = .msg)
    : (world.receive slot unendedAdd).request slot = .add
      ∧ ∀ c ∈ addString ((world.receive slot unendedAdd).message slot), c = 97 := by
  have nothing : (world.message slot).drop unendedAdd.bytes.length = [] := by
    rw [List.drop_eq_nil_of_le]
    exact le_of_eq ((List.Vector.toList_length _).trans unendedBytes_length.symm)
  have whole : (world.receive slot unendedAdd).message slot = unendedBytes := by
    rw [World.receive_message, nothing, List.append_nil]
    rfl
  constructor
  · rw [World.receive_request, nothing, List.append_nil, state]
    have type : wireType unendedBytes = MsgType.employeeAddReq.code := wireType_wireHeader _ _ _
    have length : wireLength unendedBytes = 1 := wireLength_wireHeader _ _ _
    change requestOf .msg unendedBytes = .add
    simp only [requestOf, type, length, and_self, if_true]
  · intro c member
    rw [whole, addString, unendedBytes, List.drop_append, List.drop_eq_nil_of_le
      (by rw [wireHeader_length]; decide), List.nil_append, List.drop_replicate] at member
    exact List.eq_of_mem_replicate member

/-- The events when the first two clients are ready. -/
private def firstTwoReady : Fin (maxClients + 1) → UInt16 :=
  fun j => if j.val = 1 ∨ j.val = 2 then pollin else 0

/-- The system calls of an iteration in which they are. -/
private def firstTwoEnv : Env where
  poll := some firstTwoReady
  accept := -1
  read := none
  realloc := none
  writes := fun _ => .complete

private theorem firstTwoEnv_behaves (server : State) : SocketsBehave server firstTwoEnv := by
  refine ⟨fun _ impossible => absurd rfl impossible, ?_⟩
  rintro _ ⟨⟩ j events
  by_cases ready : j.val = 1 ∨ j.val = 2
  · simp [firstTwoReady, ready, pollin]
  · simp [firstTwoReady, ready] at events

/-- When both of the first two clients are ready, an add request without a terminator from the
first one makes the lookup of the second one fail.
-/
private theorem unended_run (dbfd : Nat) {server : State} (consistent : server.Consistent)
    (position : server.position = .poll) (connected : server.world.clients.connected = [0, 1])
    (state : (server.world.clients 0).state = .msg) (fd : (server.world.clients 1).fd = 44)
    : ∃ history next,
        Run (Step dbfd SocketsBehave) server history next ∧ ¬ LookupsFind next := by
  have nfds : server.nfds = 3 := by rw [consistent.count, connected]; rfl
  let fds := (rebuildFds server.world.clients (List.finRange maxClients) 1
    server.fds).report server.nfds firstTwoReady
  have two : readyCount server.nfds firstTwoReady = 2 := by
    rw [nfds]
    decide +kernel
  have first : (fds 1).fd = (server.world.clients 0).fd := by
    have entry := rebuildFds_connected server.world.clients server.fds (k := 0)
      (by rw [connected]; decide)
    simp only [connected] at entry
    exact entry
  have second : (fds 2).fd = 44 := by
    have entry := rebuildFds_connected server.world.clients server.fds (k := 1)
      (by rw [connected]; decide)
    simp only [connected] at entry
    exact entry.trans fd
  have readable (j : Fin (maxClients + 1)) (known : j.val = 1 ∨ j.val = 2)
      : (fds j).readable := by
    have below : j.val < 3 := by omega
    simp [fds, Fds.report, nfds, below, firstTwoReady, known, PollFd.readable, pollin]
  have silent : ¬ (fds 0).readable := by
    simp [fds, Fds.report, nfds, firstTwoReady, PollFd.readable]
  have polling : pollLoopStep firstTwoEnv dbfd server
      = .ok (⟨server.world, fds, server.nfds, .scan 1 2⟩, []) := by
    have started := pollStep_silent firstTwoEnv rfl rfl silent
    rw [two] at started
    rw [pollLoopStep, position]
    exact started
  -- the first client's turn: its message overwrites the second client's descriptor
  obtain ⟨asked, text⟩ := unendedAdd_request state
  have busy : (server.world.clients 0).fd ≠ -1 :=
    Clients.mem_connected.mp (by rw [connected]; decide)
  have found : findSlotByFd server.world.clients (fds 1).fd = some 0 := by
    rw [first]
    exact findSlotByFd_unique fun _ same => consistent.tidy.distinct busy same
  have received (other : Slot)
      : ((server.world.receive 0 unendedAdd).clients other).fd
        = (server.world.clients other).fd := by
    by_cases same : other = 0 <;> simp [World.receive, World.setClient, same]
  obtain ⟨after, actions, handled, fdAfter⟩ :=
    handleClientFsm_runsOn (clientEnv (some unendedAdd) none) dbfd 1 asked
      (fun member => absurd (text _ member) (by decide))
      (fun member => absurd (text _ member) (by decide)) rfl ((received 1).trans fd)
  have serving := pollLoopStep_serve (show 1 < maxClients + 1 by decide)
    ⟨show 1 ≤ server.nfds by omega, Nat.two_pos⟩ (readable 1 (Or.inl rfl)) found
    (serveClient_handled handled)
  refine ⟨_, _, (Run.single ⟨_, firstTwoEnv_behaves server, polling⟩).snoc
    ⟨_, ⟨fun _ impossible => absurd rfl impossible, by rintro _ ⟨⟩⟩, serving⟩, ?_⟩
  intro lookups
  obtain ⟨inside, lookup⟩ := lookups 2 1 rfl (by simp [nfds]) Nat.one_pos
  obtain ⟨slot, hit, -⟩ := lookup (readable 2 (Or.inr rfl))
  have target : (after.clients slot).fd = 44 := (findSlotByFd_some hit).trans second
  rw [fdAfter slot, received] at target
  split_ifs at target with isSecond
  · exact absurd target (by decide)
  · have connected2 : (server.world.clients 1).fd ≠ -1 := by rw [fd]; decide
    exact isSecond (consistent.tidy.distinct connected2 (target.trans fd.symm))

/-- Two clients can connect to a new server with the descriptors 5 and 44, and the first one
can greet.
-/
private theorem two_clients_run (dbfd : Nat) (db : Db) (file : OpenFile UInt8) (listenFd : Int32)
    : ∃ history server,
        Run (Step dbfd Orderly) (startServer db file listenFd) history server
        ∧ server.Consistent
        ∧ server.position = .poll
        ∧ server.world.clients.connected = [0, 1]
        ∧ (server.world.clients 0).state = .msg
        ∧ (server.world.clients 1).fd = 44 := by
  obtain ⟨buffer, fds1, history1, run1, -⟩ :=
    first_client_run dbfd db file listenFd (show (5 : Int32) ≠ -1 by decide)
  have consistent := (startServer_consistent db file listenFd).run_orderly run1
  let states := Function.update initClients 0 ⟨5, .msg, buffer⟩
  have free : findFreeSlot states = some 1 := by
    refine findFreeSlot_first rfl fun other below => ?_
    obtain rfl : other = 0 := Fin.ext (Nat.lt_one_iff.mp (show other.val < 1 from below))
    simp only [states, Function.update_self]
    decide
  obtain ⟨fds2, history2, run2, -⟩ := consistent.connect_run dbfd rfl free
    (show (44 : Int32) ≠ -1 by decide) fun other => by
      by_cases same : other = 0 <;> simp [initClients, same]
  have fds : (fun slot : Slot => decide
      ((Function.update states 1 ⟨44, .hello, (states 1).buffer⟩ slot).fd ≠ -1))
      = fun slot => decide (slot = 0 ∨ slot = 1) := by
    funext slot
    by_cases second : slot = 1
    · simp [second]
    · by_cases first : slot = 0 <;> simp [states, initClients, first, second]
  have connected : Clients.connected
      (Function.update states 1 ⟨44, .hello, (states 1).buffer⟩) = [0, 1] := by
    rw [Clients.connected, fds]
    decide +kernel
  exact ⟨_, _, run1.append run2, consistent.run_orderly run2, rfl, connected, rfl, rfl⟩

/-- A new server that two clients have connected to stands at the start of an iteration. -/
theorem slots_sound_two_clients
    : ∃ history server,
        Run (Step 3 fun state env => SocketsBehave state env ∧ EndedAdds state env)
          (startServer ⟨headerOf 0, some []⟩ (.opened []) 4) history server
        ∧ server.world.clients.connected = [0, 1]
        ∧ SlotsSound 3 server := by
  obtain ⟨history, server, run, -, -, connected, -, -⟩ :=
    two_clients_run 3 ⟨headerOf 0, some []⟩ (.opened []) 4
  have guarded : Run (Step 3 fun state env => SocketsBehave state env ∧ EndedAdds state env)
      (startServer ⟨headerOf 0, some []⟩ (.opened []) 4) history server :=
    run_of_orderly (fun _ _ orderly => ⟨⟨orderly.fresh, orderly.ready⟩, orderly.ended⟩) run
  exact ⟨history, server, guarded, connected, slots_sound guarded⟩

/-- With add strings that do not end inside their buffer, the agreement fails: an add request
of 4096 bytes from the first of two clients overwrites the descriptor of the second one, whose
lookup then fails in the same iteration.
-/
theorem slots_unsound
    : ∃ history server,
        Run (Step 3 SocketsBehave) (startServer ⟨headerOf 0, some []⟩ (.opened []) 4) history
          server
        ∧ ¬ SlotsSound 3 server := by
  obtain ⟨history, server, run, consistent, position, connected, state, fd⟩ :=
    two_clients_run 3 ⟨headerOf 0, some []⟩ (.opened []) 4
  obtain ⟨more, next, further, broken⟩ :=
    unended_run 3 consistent position connected state fd
  have behaved : Run (Step 3 SocketsBehave) _ history server :=
    run_of_orderly (fun _ _ orderly => ⟨orderly.fresh, orderly.ready⟩) run
  exact ⟨history ++ more, next, behaved.append further, fun sound => broken sound.lookups⟩

end LowlevelAcademy.Correctness
