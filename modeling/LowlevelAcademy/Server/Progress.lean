import LowlevelAcademy.Server.Consistency
import LowlevelAcademy.Server.Requests

/-! What clients can make the server do: from the start of an iteration a new client can
connect to a free slot, and any connected client can be served next.
-/

namespace LowlevelAcademy.Server

open LowlevelAcademy.Foundations
open LowlevelAcademy.Database

/-- All conditions on the system calls at once. -/
structure Orderly (server : State) (env : Env) : Prop where
  fresh : FreshAccept server env
  ready : ReadyPollin server env
  terminated : TerminatedAdds server env
  complete : WritesComplete server env

theorem Orderly.ended {server : State} {env : Env} (orderly : Orderly server env)
    : EndedAdds server env :=
  fun slot reading chunk received asked =>
    Or.inl (orderly.terminated slot reading chunk received asked)

/-- Orderly system calls keep the invariant of the loop. -/
theorem State.Consistent.run_orderly {dbfd : Nat} {server next : State}
    {history : List (List Action)} (consistent : server.Consistent)
    (run : Run (Step dbfd Orderly) server history next)
    : next.Consistent :=
  consistent.run (fun _ _ orderly => ⟨orderly.fresh, orderly.ready, orderly.ended⟩) run

/-- A run of orderly system calls is a run of every guard they meet. -/
theorem run_of_orderly {dbfd : Nat} {guard : Guard} {server next : State}
    {history : List (List Action)}
    (allowed : ∀ state env, Orderly state env → guard state env)
    (run : Run (Step dbfd Orderly) server history next)
    : Run (Step dbfd guard) server history next :=
  run.mono fun state _ _ ⟨env, orderly, result⟩ => ⟨env, allowed state env orderly, result⟩

/-- The events when only entry `k` is ready. -/
def onlyReady (k : Fin (maxClients + 1)) : Fin (maxClients + 1) → UInt16 :=
  fun j => if j = k then pollin else 0

/-- The system calls of an iteration in which only entry `k` is ready. -/
def pollEnv (k : Fin (maxClients + 1)) (accept : Int32) : Env where
  poll := some (onlyReady k)
  accept := accept
  read := none
  realloc := none
  writes := fun _ => .complete

/-- The system calls of a turn that serves a client. -/
def clientEnv (read : Option Chunk) (fresh : Option (Nat → Employee)) : Env where
  poll := none
  accept := -1
  read := read
  realloc := fresh
  writes := fun _ => .complete

variable {dbfd : Nat} {server : State} {slot : Slot} {k : Fin (maxClients + 1)}

theorem pollEnv_orderly {accept : Int32}
    (fresh : ∀ other, accept ≠ -1 → (server.world.clients other).fd ≠ accept)
    : Orderly server (pollEnv k accept) := by
  refine ⟨fresh, ?_, ?_, fun _ => rfl⟩
  · rintro _ ⟨⟩ j
    by_cases same : j = k <;> simp [onlyReady, same, pollin]
  · rintro _ _ _ ⟨⟩

theorem clientEnv_orderly {read : Option Chunk} {fresh : Option (Nat → Employee)}
    (terminated : TerminatedAdds server (clientEnv read fresh))
    : Orderly server (clientEnv read fresh) :=
  ⟨fun _ impossible => absurd rfl impossible, by rintro _ ⟨⟩, terminated, fun _ => rfl⟩

/-- A step that reads nothing has no add string. -/
theorem idle_orderly : Orderly server (clientEnv none none) :=
  clientEnv_orderly (by rintro _ _ _ ⟨⟩)

/-- A single ready entry is counted once. -/
theorem readyCount_onlyReady {nfds : Nat} (below : k.val < nfds)
    : readyCount nfds (onlyReady k) = 1 := by
  rw [readyCount_report (fun _ => ⟨0, 0⟩), pending, Finset.card_eq_one]
  refine ⟨k, Finset.ext fun j => ?_⟩
  simp only [Fds.report, onlyReady, Finset.mem_filter, Finset.mem_univ, true_and,
    Finset.mem_singleton, Nat.zero_le]
  constructor
  · rintro ⟨inside, events⟩
    by_contra differs
    simp [inside, differs] at events
  · rintro rfl
    simp [below, pollin]

/-- Without events left the loop over the entries is over. -/
theorem pollLoopStep_done (env : Env) {world : World} {fds : Fds} {nfds i : Nat}
    : pollLoopStep env dbfd ⟨world, fds, nfds, .scan i 0⟩
      = .ok (⟨world, fds, nfds, .poll⟩, []) := by
  simp [pollLoopStep, scanStep]

/-- The end of the loop over the entries. -/
private theorem scan_done {world : World} {fds : Fds} {nfds i : Nat}
    : Step dbfd Orderly ⟨world, fds, nfds, .scan i 0⟩ [] ⟨world, fds, nfds, .poll⟩ :=
  ⟨clientEnv none none, idle_orderly, pollLoopStep_done _⟩

/-- What the start of an iteration does with a new connection when a slot is free. -/
private theorem pollStep_accept (env : Env) {events : Fin (maxClients + 1) → UInt16}
    {fds : Fds} (reported : env.poll = some events)
    (rebuilt
      : fds = (rebuildFds server.world.clients (List.finRange maxClients) 1
          server.fds).report server.nfds events)
    (listening : (fds 0).readable) (valid : env.accept ≠ -1)
    (free : findFreeSlot server.world.clients = some slot)
    : pollStep env server
      = .ok (⟨server.world.connect slot env.accept, fds, server.nfds + 1,
          .scan 1 (readyCount server.nfds events - 1)⟩, [.accepted slot env.accept]) := by
  simp only [pollStep, reported, ← rebuilt]
  rw [if_pos listening, if_neg valid, free]

/-- What it does without a new connection. -/
theorem pollStep_silent (env : Env) {events : Fin (maxClients + 1) → UInt16}
    {fds : Fds} (reported : env.poll = some events)
    (rebuilt
      : fds = (rebuildFds server.world.clients (List.finRange maxClients) 1
          server.fds).report server.nfds events)
    (silent : ¬ (fds 0).readable)
    : pollStep env server
      = .ok (⟨server.world, fds, server.nfds, .scan 1 (readyCount server.nfds events)⟩, []) := by
  simp only [pollStep, reported, ← rebuilt]
  rw [if_neg silent]

/-- An iteration in which only the listening socket is ready puts a new connection into the
first free slot.
-/
theorem State.Consistent.accept_step (dbfd : Nat) (consistent : server.Consistent)
    (position : server.position = .poll)
    (free : findFreeSlot server.world.clients = some slot) {fd : Int32} (valid : fd ≠ -1)
    : ∃ fds,
        pollLoopStep (pollEnv 0 fd) dbfd server
          = .ok (⟨server.world.connect slot fd, fds, server.nfds + 1, .scan 1 0⟩,
              [.accepted slot fd]) := by
  have count := consistent.count
  let fds := (rebuildFds server.world.clients (List.finRange maxClients) 1
    server.fds).report server.nfds (onlyReady 0)
  have one : readyCount server.nfds (onlyReady 0) = 1 := by
    apply readyCount_onlyReady
    change 0 < server.nfds
    omega
  have listening : (fds 0).readable := by
    have positive : 0 < server.nfds := by omega
    simp [fds, Fds.report, onlyReady, PollFd.readable, positive, pollin]
  have accepted := pollStep_accept (pollEnv 0 fd) rfl rfl listening valid free
  rw [one] at accepted
  refine ⟨fds, ?_⟩
  rw [pollLoopStep, position]
  exact accepted

/-- A new client can connect to the first free slot. -/
theorem State.Consistent.connect_run (dbfd : Nat) (consistent : server.Consistent)
    (position : server.position = .poll)
    (free : findFreeSlot server.world.clients = some slot) {fd : Int32} (valid : fd ≠ -1)
    (fresh : ∀ other, (server.world.clients other).fd ≠ fd)
    : ∃ fds history,
        Run (Step dbfd Orderly) server history
          ⟨server.world.connect slot fd, fds, server.nfds + 1, .poll⟩
        ∧ history.flatten = [.accepted slot fd] := by
  obtain ⟨fds, accepting⟩ := consistent.accept_step dbfd position free valid
  refine ⟨fds, _, .snoc (.single ⟨_, pollEnv_orderly fun other _ => fresh other, accepting⟩)
    scan_done, ?_⟩
  simp

-----------------------------------------------------------------------------------------
-- Being served
-----------------------------------------------------------------------------------------

/-- Orderly system calls that report no client but one. -/
structure Targets (slot : Slot) (server : State) (env : Env) : Prop where
  orderly : Orderly server env
  only : ∀ other, server.Reported env other → other = slot

/-- A step that reads nothing reports nothing. -/
theorem idle_targets : Targets slot server (clientEnv none none) :=
  ⟨idle_orderly, by rintro _ ⟨-, _, ⟨⟩, -⟩⟩

/-- Silent entries are passed one by one, by induction on the distance. -/
private theorem pass_run (dbfd : Nat) (slot : Slot) (world : World) (fds : Fds) (nfds : Nat)
    {nEvents : Nat} (more : 0 < nEvents) (i distance : Nat) (inside : i + distance ≤ nfds)
    (exist : nfds ≤ maxClients + 1)
    (silent : ∀ j, i ≤ j.val → j.val < i + distance → (fds j).readable = false)
    : ∃ history,
        Run (Step dbfd (Targets slot)) ⟨world, fds, nfds, .scan i nEvents⟩ history
          ⟨world, fds, nfds, .scan (i + distance) nEvents⟩
        ∧ history.flatten = [] := by
  induction distance with
  | zero => exact ⟨[], .nil, rfl⟩
  | succ distance ih =>
      obtain ⟨history, run, quiet⟩ := ih (by omega) fun j start below =>
        silent j start (by omega)
      have here : i + distance < maxClients + 1 := by omega
      have passing : pollLoopStep (clientEnv none none) dbfd
          ⟨world, fds, nfds, .scan (i + distance) nEvents⟩
          = .ok (⟨world, fds, nfds, .scan (i + (distance + 1)) nEvents⟩, []) := by
        have unready := silent ⟨i + distance, here⟩ (by simp) (by simp)
        simp only [pollLoopStep, scanStep]
        rw [if_pos ⟨by omega, more⟩, dif_pos here, unready]
        rfl
      exact ⟨history ++ [[]], run.snoc ⟨_, idle_targets, passing⟩, by simp [quiet]⟩

/-- A turn whose entry leads to a client that can be served. -/
theorem pollLoopStep_serve {env : Env} {fds : Fds} {i nEvents nfds nfds' : Nat}
    {world world' : World} {actions : List Action} (inside : i < maxClients + 1)
    (more : i ≤ nfds ∧ 0 < nEvents) (readable : (fds ⟨i, inside⟩).readable)
    (found : findSlotByFd world.clients (fds ⟨i, inside⟩).fd = some slot)
    (served : serveClient env dbfd world nfds slot = .ok (world', nfds', actions))
    : pollLoopStep env dbfd ⟨world, fds, nfds, .scan i nEvents⟩
      = .ok (⟨world', fds, nfds', .scan (i + 1) (nEvents - 1)⟩, actions) := by
  simp only [pollLoopStep, scanStep]
  rw [if_pos more, dif_pos inside, if_pos readable, found]
  simp only [served]

/-- A connected client can be the next one to be read from. Witness: an iteration in which only
its entry is ready.
-/
theorem State.Consistent.target_run (dbfd : Nat) (consistent : server.Consistent)
    (position : server.position = .poll) (connected : (server.world.clients slot).fd ≠ -1)
    : ∃ fds history i, ∃ inside : i < maxClients + 1,
        Run (Step dbfd (Targets slot)) server history ⟨server.world, fds, server.nfds, .scan i 1⟩
        ∧ history.flatten = []
        ∧ i ≤ server.nfds
        ∧ (fds ⟨i, inside⟩).readable
        ∧ findSlotByFd server.world.clients (fds ⟨i, inside⟩).fd = some slot := by
  obtain ⟨index, inside, found⟩ :=
    List.mem_iff_getElem.mp (Clients.mem_connected.mpr connected)
  have few := server.world.clients.connected_length_le
  have count := consistent.count
  have here : index + 1 < maxClients + 1 := by omega
  let entry : Fin (maxClients + 1) := ⟨index + 1, here⟩
  let fds := (rebuildFds server.world.clients (List.finRange maxClients) 1
    server.fds).report server.nfds (onlyReady entry)
  have below : entry.val < server.nfds := by
    simp only [entry]
    omega
  have one := readyCount_onlyReady below
  have events (j : Fin (maxClients + 1)) (polled : j.val < server.nfds)
      : (fds j).readable = decide (j = entry) := by
    simp only [fds, Fds.report, onlyReady, PollFd.readable, if_pos polled]
    by_cases same : j = entry <;> simp [same, pollin]
  have fd : (fds entry).fd = (server.world.clients slot).fd := by
    rw [← found]
    exact rebuildFds_connected server.world.clients server.fds inside
  have polling : pollLoopStep (pollEnv entry (-1)) dbfd server
      = .ok (⟨server.world, fds, server.nfds, .scan 1 1⟩, []) := by
    have silent : ¬ (fds 0).readable := by
      rw [events 0 (by change 0 < server.nfds; omega)]
      simp [entry, Fin.ext_iff]
    have started := pollStep_silent (pollEnv entry (-1)) rfl rfl silent
    rw [one] at started
    rw [pollLoopStep, position]
    exact started
  obtain ⟨history, passing, quiet⟩ := pass_run dbfd slot server.world fds server.nfds
    Nat.one_pos 1 index (by omega) (by omega)
    fun j start before => by
      rw [events j (by omega)]
      simp only [decide_eq_false_iff_not, entry, Fin.ext_iff]
      omega
  have lookup : findSlotByFd server.world.clients (fds entry).fd = some slot := by
    rw [fd]
    exact findSlotByFd_unique fun _ same => consistent.tidy.distinct connected same
  have ready : (fds entry).readable := by
    rw [events entry below]
    simp
  have same : (⟨1 + index, by omega⟩ : Fin (maxClients + 1)) = entry :=
    Fin.ext (Nat.add_comm 1 index)
  have targets : Targets slot server (pollEnv entry (-1)) := by
    refine ⟨pollEnv_orderly fun _ impossible => absurd rfl impossible, ?_⟩
    rintro other ⟨taken, _, ⟨⟩, j, -, -, reported, sameFd⟩
    have own : j = entry := by
      by_contra differs
      simp [onlyReady, differs] at reported
    subst own
    exact consistent.tidy.distinct connected (sameFd.symm.trans fd)
  refine ⟨fds, [[]] ++ history, 1 + index, by omega,
    (Run.single ⟨_, targets, polling⟩).append passing, by simp [quiet], by omega,
    by rw [same]; exact ready, by rw [same]; exact lookup⟩

/-- The same with orderly system calls. -/
theorem State.Consistent.reach_run (dbfd : Nat) (consistent : server.Consistent)
    (position : server.position = .poll) (connected : (server.world.clients slot).fd ≠ -1)
    : ∃ fds history i, ∃ inside : i < maxClients + 1,
        Run (Step dbfd Orderly) server history ⟨server.world, fds, server.nfds, .scan i 1⟩
        ∧ history.flatten = []
        ∧ i ≤ server.nfds
        ∧ (fds ⟨i, inside⟩).readable
        ∧ findSlotByFd server.world.clients (fds ⟨i, inside⟩).fd = some slot := by
  obtain ⟨fds, history, i, inside, run, reached⟩ :=
    consistent.target_run dbfd position connected
  refine ⟨fds, history, i, inside, run.mono ?_, reached⟩
  exact fun _ _ _ ⟨env, targets, result⟩ => ⟨env, targets.orderly, result⟩

/-- A connected client can be the next one to be served. -/
theorem State.Consistent.serve_run (dbfd : Nat) (consistent : server.Consistent)
    (position : server.position = .poll) (connected : (server.world.clients slot).fd ≠ -1)
    {read : Option Chunk} {fresh : Option (Nat → Employee)} {world : World} {nfds : Nat}
    {actions : List Action}
    (terminated
      : ∀ chunk ∈ read,
          (server.world.receive slot chunk).request slot = .add
          → nul ∈ addString ((server.world.receive slot chunk).message slot))
    (served
      : serveClient (clientEnv read fresh) dbfd server.world server.nfds slot
        = .ok (world, nfds, actions))
    : ∃ fds history,
        Run (Step dbfd Orderly) server history ⟨world, fds, nfds, .poll⟩
        ∧ history.flatten = actions := by
  obtain ⟨fds, history, i, inside, run, quiet, polled, ready, lookup⟩ :=
    consistent.reach_run dbfd position connected
  have serving := pollLoopStep_serve inside ⟨polled, Nat.one_pos⟩ ready lookup served
  have orderly : Orderly ⟨server.world, fds, server.nfds, .scan i 1⟩ (clientEnv read fresh) := by
    refine clientEnv_orderly fun other reading chunk received asked => ?_
    have target := State.reading_of_scan ⟨server.world, fds, server.nfds, .scan i 1⟩ rfl
      inside ⟨polled, Nat.one_pos⟩ ready
    simp only [lookup] at target
    obtain rfl := Option.some.inj (target.symm.trans reading)
    exact terminated chunk received asked
  refine ⟨fds, history ++ [actions] ++ [[]], (run.snoc ⟨_, orderly, serving⟩).snoc scan_done, ?_⟩
  simp [quiet]

/-- Serving a client whose data the handler can handle. -/
theorem serveClient_handled {world next : World} {nfds : Nat} {chunk : Chunk}
    {fresh : Option (Nat → Employee)} {actions : List Action}
    (result
      : handleClientFsm (clientEnv (some chunk) fresh) dbfd (world.receive slot chunk) slot
        = .ok (next, actions))
    : serveClient (clientEnv (some chunk) fresh) dbfd world nfds slot
      = .ok (next, nfds,
          .handled slot (world.clients slot).state
            ((world.receive slot chunk).clients slot).buffer :: actions) := by
  have read : (clientEnv (some chunk) fresh).read = some chunk := rfl
  simp only [serveClient, read, result, World.receive_state]

/-- The read of a hello with the server's version. -/
def helloChunk (padding : Bytes 2) : Chunk := (ClientMessage.hello padding protoVersion).chunk

/-- In `STATE_HELLO` it is taken as a greeting. -/
theorem World.receive_hello {world : World} (state : (world.clients slot).state = .hello)
    (padding : Bytes 2)
    : (world.receive slot (helloChunk padding)).request slot = .greeting := by
  rw [World.receive_request, state]
  exact requestOf_greeting ((greets_message _ _).mpr ⟨padding, rfl⟩)

/-- A connected client in `STATE_HELLO` can say hello and is then in `STATE_MSG`. -/
theorem State.Consistent.greet_run (dbfd : Nat) (consistent : server.Consistent)
    (position : server.position = .poll) (connected : (server.world.clients slot).fd ≠ -1)
    (state : (server.world.clients slot).state = .hello) (padding : Bytes 2)
    : ∃ buffer reply fds history,
        Run (Step dbfd Orderly) server history
          ⟨server.world.setClient slot .msg buffer, fds, server.nfds, .poll⟩
        ∧ history.flatten
          = [.handled slot .hello
              ((server.world.receive slot (helloChunk padding)).clients slot).buffer,
            .sent slot reply] := by
  have asked := World.receive_hello state padding
  obtain ⟨buffer, handled⟩ :=
    handleClientFsm_greeting (clientEnv (some (helloChunk padding)) none) dbfd _ _ asked
  obtain ⟨fds, history, run, flat⟩ := consistent.serve_run dbfd position connected
    (by rintro _ ⟨⟩ add; rw [asked] at add; cases add) (serveClient_handled handled)
  rw [World.receive_setClient] at run
  rw [state] at flat
  exact ⟨buffer, _, fds, history, run, flat⟩

/-- A connected client can end its connection. -/
theorem State.Consistent.leave_run (dbfd : Nat) (consistent : server.Consistent)
    (position : server.position = .poll) (connected : (server.world.clients slot).fd ≠ -1)
    : ∃ fds history,
        Run (Step dbfd Orderly) server history
          ⟨server.world.disconnect slot, fds, server.nfds - 1, .poll⟩
        ∧ history.flatten = [.disconnected slot] :=
  consistent.serve_run dbfd position connected (by rintro _ ⟨⟩)
    (show serveClient (clientEnv none none) dbfd server.world server.nfds slot
      = .ok (server.world.disconnect slot, server.nfds - 1, [.disconnected slot]) from rfl)

/-- A first client can connect to a new server and greet. -/
theorem first_client_run (dbfd : Nat) (db : Db) (file : OpenFile UInt8) (listenFd : Int32)
    {fd : Int32} (valid : fd ≠ -1)
    : ∃ buffer fds history,
        Run (Step dbfd Orderly) (startServer db file listenFd) history
          ⟨⟨Function.update initClients 0 ⟨fd, .msg, buffer⟩, db, file⟩, fds, 2, .poll⟩
        ∧ acceptedRequests history.flatten = [] := by
  have consistent := startServer_consistent db file listenFd
  have free : findFreeSlot initClients = some 0 :=
    findFreeSlot_first rfl fun other below => absurd below (Fin.not_lt_zero other)
  obtain ⟨fds1, history1, run1, flat1⟩ := consistent.connect_run dbfd rfl free valid
    fun other => by simpa [startServer, initClients] using Ne.symm valid
  have connected : ((World.connect ⟨initClients, db, file⟩ 0 fd).clients 0).fd ≠ -1 := by
    simpa [World.connect] using valid
  obtain ⟨buffer, _, fds2, history2, run2, flat2⟩ := (consistent.run_orderly run1).greet_run dbfd
    rfl connected (by simp [startServer, World.connect]) (clearedBuffer.take 2)
  have same : (World.connect ⟨initClients, db, file⟩ 0 fd).setClient 0 .msg buffer
      = ⟨Function.update initClients 0 ⟨fd, .msg, buffer⟩, db, file⟩ := by
    simp [World.connect, World.setClient]
  refine ⟨buffer, fds2, history1 ++ history2, same ▸ run1.append run2, ?_⟩
  rw [List.flatten_append, flat1, acceptedRequests_append, flat2]
  rfl

/-- After greeting, that client can be the next one to be read from. -/
theorem first_client_reads (dbfd : Nat) (db : Db) (file : OpenFile UInt8) (listenFd : Int32)
    : ∃ history server,
        Run (Step dbfd Orderly) (startServer db file listenFd) history server
        ∧ server.reading = some 0
        ∧ (server.world.clients 0).state = .msg
        ∧ server.world.db = db
        ∧ server.world.file = file := by
  obtain ⟨buffer, fds, history, run, -⟩ :=
    first_client_run dbfd db file listenFd (show (5 : Int32) ≠ -1 by decide)
  have consistent := (startServer_consistent db file listenFd).run_orderly run
  have connected : (Function.update initClients 0 ⟨5, .msg, buffer⟩ 0).fd ≠ -1 := by
    simp only [Function.update_self]
    decide
  obtain ⟨polled, more, i, inside, further, -, below, ready, found⟩ :=
    consistent.reach_run dbfd rfl connected
  let server : State :=
    ⟨⟨Function.update initClients 0 ⟨5, .msg, buffer⟩, db, file⟩, polled, 2, .scan i 1⟩
  have reading : server.reading = some 0 :=
    (State.reading_of_scan server rfl inside ⟨below, Nat.one_pos⟩ ready).trans found
  exact ⟨history ++ more, server, run.append further, reading, by simp [server], rfl, rfl⟩

/-- An add request that a client in `STATE_MSG` sends is read as one, with the string in its
data.
-/
theorem World.receive_add {world : World} (state : (world.clients slot).state = .msg)
    (padding : Bytes 2) {data : Bytes 1024} (terminated : nul ∈ data.toList)
    : (world.receive slot (ClientMessage.add padding data).chunk).request slot = .add
      ∧ ∃ rest,
          addString ((world.receive slot (ClientMessage.add padding data).chunk).message slot)
          = cString nul data.toList ++ nul :: rest := by
  constructor
  · rw [World.receive_request, state]
    exact requestOf_msg _ _
  · obtain ⟨rest, split⟩ := cString_split terminated
    refine ⟨rest ++ (world.message slot).drop
      (ClientMessage.add padding data).chunk.bytes.length, ?_⟩
    rw [World.receive_message]
    change addString ((ClientMessage.add padding data).bytes ++ _) = _
    rw [addString_add]
    nth_rewrite 1 [split]
    rw [List.append_assoc, List.cons_append]

/-- A connected client in `STATE_MSG` can add any acceptable string of fewer than 1024 bytes,
while the counter has room and memory is available.
-/
theorem State.Consistent.add_run (dbfd : Nat) (consistent : server.Consistent)
    (position : server.position = .poll) (connected : (server.world.clients slot).fd ≠ -1)
    (state : (server.world.clients slot).state = .msg) {records : List Employee}
    (holds : server.world.db.Holds records) (room : records.length < 65535)
    (padding : Bytes 2) {data : Bytes 1024} (terminated : nul ∈ data.toList)
    (accepted : acceptable (cString nul data.toList)) (contents : Nat → Employee)
    : ∃ next fds history memory env,
        Run (Step dbfd Orderly) server history ⟨next, fds, server.nfds, .poll⟩
        ∧ acceptedRequests history.flatten = [cString nul data.toList]
        ∧ Accepts env dbfd server.world memory next
        ∧ ∀ i, env.writes i = .complete := by
  let chunk := (ClientMessage.add padding data).chunk
  let env := clientEnv (some chunk) (some contents)
  let world := server.world.receive slot chunk
  obtain ⟨asked, rest, own⟩ := World.receive_add state padding terminated
  change world.request slot = .add at asked
  change addString (world.message slot) = _ at own
  have clean := nul_not_mem_cString nul data.toList
  generalize cString nul data.toList = request at *
  have inside : nul ∈ addString (world.message slot) := by simp [own]
  have sameDb : world.db = server.world.db := rfl
  obtain ⟨edited, -, scanned⟩ := addEmployee_terminated env.realloc world.db clean
    rest
  rw [← own, addResult, if_pos accepted, sameDb] at scanned
  obtain ⟨db, appended⟩ := appendEmployee_ok contents (employeeOf request) holds room
  obtain ⟨saved, saving, -⟩ := outputFile_ok env.writes (Int.natCast_nonneg dbfd)
    server.world.file (appendEmployee_holds holds appended).1
  have realloc : env.realloc = some contents := rfl
  rw [realloc, appended] at scanned
  obtain ⟨buffer, handled⟩ := handleClientFsm_add env dbfd world slot asked (Or.inl inside)
  rw [sameDb, realloc, scanned] at handled
  simp only [finishAdd] at handled
  have sameFile : world.file = server.world.file := rfl
  rw [sameFile, saving] at handled
  obtain ⟨fds, history, run, flat⟩ := consistent.serve_run dbfd position connected
    (by rintro _ ⟨⟩ _; exact inside) (serveClient_handled handled)
  refine ⟨_, fds, history, addString (world.message slot), env, run, ?_, ?_, fun _ => rfl⟩
  · have taken : world.addRequest slot = request := by
      rw [World.addRequest, own, List.append_assoc, List.cons_append, cString_append clean]
    rw [flat, taken]
    simp [acceptedRequests]
  · rw [← realloc] at scanned
    exact ⟨db, _, saved, scanned, saving, rfl, rfl⟩

/-- The data of an add request that carries a string. -/
def addData (request : List UInt8) : Bytes 1024 := fit 1024 nul request

/-- A string without terminator that leaves room for one is found in the data. -/
theorem cString_addData {request : List UInt8} (clean : nul ∉ request)
    (short : request.length < 1024)
    : nul ∈ (addData request).toList ∧ cString nul (addData request).toList = request := by
  obtain ⟨room, filled⟩ : ∃ room, 1024 - request.length = room + 1 :=
    ⟨1024 - request.length - 1, by omega⟩
  have stored : (addData request).toList = request ++ nul :: List.replicate room nul := by
    rw [addData, fit_toList_of_le (by omega), filled, List.replicate_succ]
  rw [stored, cString_append clean]
  exact ⟨by simp, rfl⟩

/-- On a new server a first client can connect, greet and add a record. -/
theorem first_add_run (dbfd : Nat) {db : Db} (file : OpenFile UInt8) (listenFd : Int32)
    {records : List Employee} (holds : db.Holds records) (room : records.length < 65535)
    {request : List UInt8} (clean : nul ∉ request) (short : request.length < 1024)
    (accepted : acceptable request)
    : ∃ history server memory env,
        Run (Step dbfd Orderly) (startServer db file listenFd) history server
        ∧ acceptedRequests history.flatten = [request]
        ∧ Accepts env dbfd (startServer db file listenFd).world memory server.world
        ∧ ∀ i, env.writes i = .complete := by
  obtain ⟨buffer, fds1, history1, run1, none⟩ :=
    first_client_run dbfd db file listenFd (show (5 : Int32) ≠ -1 by decide)
  obtain ⟨terminated, found⟩ := cString_addData clean short
  have consistent := (startServer_consistent db file listenFd).run_orderly run1
  have client : Function.update initClients 0 ⟨5, .msg, buffer⟩ 0 = ⟨5, .msg, buffer⟩ :=
    Function.update_self ..
  obtain ⟨next, fds2, history2, memory, env, run2, one, accepts, complete⟩ :=
    @State.Consistent.add_run _ 0 dbfd consistent rfl
      (by simp only [client]; decide) (by simp only [client]) records holds room
      (clearedBuffer.take 2) _ terminated (by rwa [found]) fun _ => employeeOf []
  refine ⟨history1 ++ history2, _, memory, env, run1.append run2, ?_, accepts, complete⟩
  rw [List.flatten_append, acceptedRequests_append, none, one, found]
  rfl

-----------------------------------------------------------------------------------------
-- Serving never stops the server
-----------------------------------------------------------------------------------------

/-- On a held database, and with memory available, handling any message has a result, as long as
add strings are terminated and there is room for what they add.
-/
theorem handleClientFsm_ok {env : Env} {world : World} {records : List Employee}
    {contents : Nat → Employee} (holds : world.db.Holds records)
    (room
      : world.request slot = .add
        → acceptable (cString nul (addString (world.message slot)))
        → records.length < 65535)
    (available : env.realloc = some contents)
    (terminated : world.request slot = .add → nul ∈ addString (world.message slot))
    : ∃ next, handleClientFsm env dbfd world slot = .ok next := by
  cases asked : world.request slot with
  | greeting => exact (handleClientFsm_greeting env dbfd world slot asked).elim fun _ h => ⟨_, h⟩
  | refused => exact (handleClientFsm_refused env dbfd world slot asked).elim fun _ h => ⟨_, h⟩
  | ignored => exact ⟨_, handleClientFsm_ignored env dbfd world slot asked⟩
  | list => exact (handleClientFsm_list env dbfd world slot asked holds).elim fun _ h => ⟨_, h⟩
  | add =>
      have inside := terminated asked
      obtain ⟨buffer, equation⟩ :=
        handleClientFsm_add env dbfd world slot asked (Or.inl inside)
      obtain ⟨rest, split⟩ := cString_split inside
      obtain ⟨edited, -, scanned⟩ := addEmployee_terminated env.realloc world.db
        (nul_not_mem_cString nul (addString (world.message slot))) rest
      rw [equation, split, scanned, addResult, available]
      split_ifs with accepted
      · obtain ⟨db, appended⟩ := appendEmployee_ok contents
          (employeeOf (cString nul (addString (world.message slot)))) holds (room asked accepted)
        obtain ⟨saved, saving, -⟩ := outputFile_ok env.writes (Int.natCast_nonneg dbfd)
          world.file (appendEmployee_holds holds appended).1
        exact ⟨_, by simp only [appended, finishAdd, saving]; rfl⟩
      · exact ⟨_, rfl⟩

/-- The client that is read from next is the one of the current entry. -/
theorem State.scan_of_reading (reading : server.reading = some slot)
    : ∃ i nEvents, ∃ inside : i < maxClients + 1,
        server.position = .scan i nEvents
        ∧ (i ≤ server.nfds ∧ 0 < nEvents)
        ∧ (server.fds ⟨i, inside⟩).readable
        ∧ findSlotByFd server.world.clients (server.fds ⟨i, inside⟩).fd = some slot := by
  simp only [State.reading] at reading
  split at reading
  · cases reading
  next i nEvents position =>
  split_ifs at reading with more inside readable
  exact ⟨i, nEvents, inside, position, more, readable, reading⟩

/-- Whatever a ready client sends, the loop goes on. -/
theorem pollLoopStep_ok {env : Env} {records : List Employee} {contents : Nat → Employee}
    (holds : server.world.db.Holds records)
    (room
      : ∀ chunk ∈ env.read,
          (server.world.receive slot chunk).request slot = .add
          → acceptable (cString nul (addString ((server.world.receive slot chunk).message slot)))
          → records.length < 65535)
    (reading : server.reading = some slot) (available : env.realloc = some contents)
    (terminated : TerminatedAdds server env)
    : ∃ next, pollLoopStep env dbfd server = .ok next := by
  obtain ⟨i, nEvents, inside, position, more, readable, found⟩ :=
    State.scan_of_reading reading
  obtain ⟨world, fds, nfds, _⟩ := server
  obtain rfl : _ = Position.scan i nEvents := position
  cases read : env.read with
  | none => exact ⟨_, pollLoopStep_serve inside more readable found (by rw [serveClient, read])⟩
  | some chunk =>
      obtain ⟨⟨next, actions⟩, handled⟩ :=
        @handleClientFsm_ok dbfd slot env (world.receive slot chunk) records contents holds
          (room chunk read) available (terminated slot reading chunk read)
      exact ⟨_, pollLoopStep_serve inside more readable found
        (by simp only [serveClient, read, handled]; rfl)⟩

/-- A turn of the loop that reads from no client passes its entry, or ends the loop. -/
theorem State.ConsistentAt.idle_turn (dbfd : Nat) {polled : Nat}
    (consistent : server.ConsistentAt polled) (within : server.position ≠ .poll)
    (quiet : server.reading = none)
    : ∃ next, pollLoopStep (clientEnv none none) dbfd server = .ok (next, []) := by
  obtain ⟨world, fds, nfds, position⟩ := server
  cases position with
  | poll => exact absurd rfl within
  | scan i nEvents =>
  by_cases more : i ≤ nfds ∧ 0 < nEvents
  · have scanning := consistent.scanning i nEvents rfl
    obtain ⟨below, inside⟩ := scanning.inside more.2
    have silent : (fds ⟨i, inside⟩).readable = false := by
      by_contra readable
      obtain ⟨slot, found, -⟩ := scanning.lookup consistent.tidy inside below
      have reading := State.reading_of_scan ⟨world, fds, nfds, .scan i nEvents⟩ rfl inside more
        (by simpa using readable)
      rw [quiet, found] at reading
      cases reading
    refine ⟨⟨world, fds, nfds, .scan (i + 1) nEvents⟩, ?_⟩
    simp only [pollLoopStep, scanStep]
    rw [if_pos more, dif_pos inside, silent]
    rfl
  · refine ⟨⟨world, fds, nfds, .poll⟩, ?_⟩
    simp only [pollLoopStep, scanStep]
    rw [if_neg more]

/-- How many turns the loop over the entries takes at most. -/
def Position.turnsLeft : Position → Nat
  | .poll => 0
  | .scan i _ => maxClients + 1 - i + 1

/-- Within an iteration every step is one of these turns. -/
theorem pollLoopStep_turnsLeft {env : Env} {next : State} {actions : List Action}
    (result : pollLoopStep env dbfd server = .ok (next, actions))
    (within : server.position ≠ .poll)
    : next.position.turnsLeft < server.position.turnsLeft := by
  simp only [pollLoopStep] at result
  split at result
  · next position => exact absurd position within
  next i nEvents position =>
  rw [position, Position.turnsLeft]
  rcases scanStep_cases result with
      ⟨rfl, -⟩ | ⟨inside, -, ⟨-, rfl, -⟩ | ⟨_, _, _, -, -, -, rfl⟩⟩ <;>
    simp only [Position.turnsLeft] <;>
    omega

end LowlevelAcademy.Server
