import LowlevelAcademy.Server.Connections
import LowlevelAcademy.Server.Traces

/-! Connections do not see each other: an event of one slot leaves the others alone, and what is
sent on a connection is a function of its own reads and of the databases that they saw.
-/

namespace LowlevelAcademy.Correctness

open LowlevelAcademy.Foundations
open LowlevelAcademy.Database
open LowlevelAcademy.Server

/-- The slot that an action is about. -/
def slotOf : Action → Option Slot
  | .accepted slot _ | .disconnected slot | .handled slot _ _ | .added slot _ _ | .sent slot _
  | .saved slot _ => some slot
  | .refused _ => none

/-- The step leaves every slot but the one that its actions are about as it is: descriptor,
state and buffer.
-/
def LeavesOthers (step : StepRecord) : Prop :=
  ∃ event : Option Slot,
    (∀ action ∈ step.actions, slotOf action = event)
    ∧ ∀ other, some other ≠ event → step.after.world.clients other = step.before.world.clients other

/-- What happened on a connection since it was accepted: the reads that were handled on it, each
with the visible part of the database at that time, and the messages sent on it.
-/
structure Connection where
  inputs : List (Chunk × Visible)
  replies : List (List UInt8)

/-- The step accepts a connection in the slot. -/
def opens (slot : Slot) (step : StepRecord) : Bool :=
  step.actions.any fun
    | .accepted other _ => other = slot
    | _ => false

/-- The read of the slot that the step handles, and the database that it sees. -/
def inputOf (slot : Slot) (step : StepRecord) : List (Chunk × Visible) :=
  if step.before.reading = some slot then
    (step.env.read.map fun chunk => (chunk, visible step.before.world.db)).toList
  else []

/-- The messages that the step sends on the slot's connection. -/
def sentTo (slot : Slot) (actions : List Action) : List (List UInt8) :=
  actions.filterMap fun
    | .sent other bytes => if other = slot then some bytes else none
    | _ => none

/-- An accept in the slot opens a new connection, and every other step adds to it. -/
def connectionStep (slot : Slot) (connection : Connection) (step : StepRecord) : Connection :=
  if opens slot step then ⟨[], []⟩
  else
    ⟨connection.inputs ++ inputOf slot step, connection.replies ++ sentTo slot step.actions⟩

/-- The last connection in the slot, over a recorded run. -/
def connection (slot : Slot) (steps : List StepRecord) : Connection :=
  steps.foldl (connectionStep slot) ⟨[], []⟩

variable {dbfd : Nat} {env : Env} {server next : State} {actions : List Action}
variable {steps : List StepRecord} {slot : Slot}

/-- Every step leaves the other slots alone, as long as add strings are terminated. -/
theorem leavesOthers_step {step : StepRecord} (terminated : TerminatedAdds step.before step.env)
    (result : pollLoopStep step.env dbfd step.before = .ok (step.after, step.actions))
    : LeavesOthers step := by
  rcases pollLoopStep_event result with
      ⟨-, ⟨same, idle | refused⟩ | ⟨slot, -, -, same, accepted⟩⟩
      | ⟨slot, reading, ⟨-, same, ended⟩ | ⟨chunk, later, received, handled, all⟩⟩
  · exact ⟨none, by simp [idle], fun other _ => by rw [same]⟩
  · exact ⟨none, by simp [refused, slotOf], fun other _ => by rw [same]⟩
  · refine ⟨some slot, by simp [accepted, slotOf], fun other differs => ?_⟩
    rw [same, World.connect_other fun equal => differs (congrArg some equal)]
  · refine ⟨some slot, by simp [ended, slotOf], fun other differs => ?_⟩
    rw [same, World.disconnect_other fun equal => differs (congrArg some equal)]
  · have outcome := handleClientFsm_handled handled
    refine ⟨some slot, ?_, fun other differs => ?_⟩
    · intro action member
      rw [all] at member
      rcases List.mem_cons.mp member with rfl | later
      · rfl
      · rcases outcome.own action later with ⟨_, _, rfl⟩ | ⟨_, rfl⟩ | ⟨_, rfl⟩ <;> rfl
    · obtain ⟨state, buffer, clients, -⟩ := outcome.clients fun asked =>
        Or.inl (terminated slot reading chunk received asked)
      rw [clients, World.receive_setClient,
        World.setClient_other fun equal => differs (congrArg some equal)]

-----------------------------------------------------------------------------------------
-- What a run keeps up about its connections
-----------------------------------------------------------------------------------------

/-- A slot is clean while it is free, and what became of its last connection is explained by the
connection's own reads. While it is open, the slot has its state and buffer.
-/
structure SlotServed (client : ClientState) (log : Connection) : Prop where
  cleared : client.fd = -1 → client.buffer = clearedBuffer
  served
    : ∃ state buffer,
        Served log.inputs state buffer log.replies
        ∧ (client.fd ≠ -1 → client.state = state ∧ client.buffer = buffer)

/-- What a run keeps up: entries of the poll set behind the first one belong to clients, and so
does the entry that the loop stands at; and every slot is explained.
-/
structure ConnectionsServed (steps : List StepRecord) (server : State) : Prop where
  entries : ∀ j : Fin (maxClients + 1), 1 ≤ j.val → (server.fds j).fd ≠ -1
  started : ∀ i nEvents, server.position = .scan i nEvents → 1 ≤ i
  slots : ∀ slot, SlotServed (server.world.clients slot) (connection slot steps)

/-- The client that is read from is connected. -/
theorem ConnectionsServed.connected (kept : ConnectionsServed steps server)
    (reading : server.reading = some slot)
    : (server.world.clients slot).fd ≠ -1 := by
  obtain ⟨i, nEvents, inside, position, -, -, found⟩ := State.scan_of_reading reading
  rw [findSlotByFd_some found]
  exact kept.entries _ (kept.started i nEvents position)

/-- Every step keeps the poll set's entries and the loop's index in order. -/
theorem ConnectionsServed.pollSet (kept : ConnectionsServed steps server)
    (result : pollLoopStep env dbfd server = .ok (next, actions))
    : (∀ j : Fin (maxClients + 1), 1 ≤ j.val → (next.fds j).fd ≠ -1)
      ∧ ∀ i nEvents, next.position = .scan i nEvents → 1 ≤ i := by
  simp only [pollLoopStep] at result
  split at result
  · obtain ⟨events, fds, nEvents, -, rebuilt, -, outcome⟩ := pollStep_cases result
    have entries (j : Fin (maxClients + 1)) (behind : 1 ≤ j.val) : (fds j).fd ≠ -1 := by
      rw [rebuilt, Fds.report, rebuildFds_entry]
      simp only [if_pos behind]
      -- an entered descriptor belongs to a connected client; the others are old entries
      cases found : ((List.finRange maxClients).filter fun slot =>
          (server.world.clients slot).fd ≠ -1)[j.val - 1]? with
      | none => simpa [found] using kept.entries j behind
      | some slot =>
          have member := List.mem_of_getElem? found
          simpa [found] using (List.mem_filter.mp member).2
    rcases outcome with ⟨rfl, -⟩ | ⟨rfl, -⟩ | ⟨slot, -, -, rfl, -⟩
    · exact ⟨entries, by simp⟩
    · exact ⟨entries, fun i nEvents same => (Position.scan.inj same).1 ▸ le_refl 1⟩
    · exact ⟨entries, fun i nEvents same => (Position.scan.inj same).1 ▸ le_refl 1⟩
  · next i nEvents position =>
    have first := kept.started i nEvents position
    rcases scanStep_cases result with
        ⟨rfl, -⟩ | ⟨inside, -, ⟨-, rfl, -⟩ | ⟨slot, world, nfds, -, -, -, rfl⟩⟩
    · exact ⟨kept.entries, by simp⟩
    · exact ⟨kept.entries, fun k _ same => (Position.scan.inj same).1 ▸ by omega⟩
    · exact ⟨kept.entries, fun k _ same => (Position.scan.inj same).1 ▸ by omega⟩

/-- A step adds to the connection in a slot unless it opens one. -/
theorem connection_snoc (slot : Slot) (steps : List StepRecord) (step : StepRecord)
    : connection slot (steps ++ [step]) = connectionStep slot (connection slot steps) step := by
  rw [connection, List.foldl_append]
  rfl

/-- A step whose actions are about another slot, or about none, adds nothing. -/
theorem connectionStep_other {step : StepRecord} {log : Connection}
    (reading : step.before.reading ≠ some slot)
    (others : ∀ action ∈ step.actions, slotOf action ≠ some slot)
    : connectionStep slot log step = log := by
  have closed : opens slot step = false := by
    rw [opens, List.any_eq_false]
    intro action member
    have differs := others action member
    cases action <;> simp_all [slotOf]
  have silent : sentTo slot step.actions = [] := by
    rw [sentTo, List.filterMap_eq_nil_iff]
    intro action member
    have differs := others action member
    cases action <;> simp_all [slotOf]
  simp [connectionStep, closed, silent, inputOf, reading]

/-- What is sent on a connection when all messages are sent on it. -/
theorem sentTo_own {later : List Action}
    (own : ∀ other message, .sent other message ∈ later → other = slot)
    : sentTo slot later = repliesOf later := by
  refine List.filterMap_congr fun action member => ?_
  cases action with
  | sent other message => simp [own other message member]
  | _ => rfl

/-- A free slot that is opened starts with a clean buffer, whoever used it before. -/
theorem SlotServed.connect {client : ClientState} {log : Connection} {fd : Int32}
    (before : SlotServed client log) (free : client.fd = -1) (valid : fd ≠ -1)
    : SlotServed ⟨fd, .hello, client.buffer⟩ ⟨[], []⟩ :=
  ⟨fun same => absurd same valid, .hello, clearedBuffer, .opened,
    fun _ => ⟨rfl, before.cleared free⟩⟩

/-- A slot that is closed is cleared. -/
theorem SlotServed.disconnect {client : ClientState} {log : Connection}
    (before : SlotServed client log)
    : SlotServed ⟨-1, .disconnected, clearedBuffer⟩ log := by
  obtain ⟨state, buffer, served, -⟩ := before.served
  exact ⟨fun _ => rfl, state, buffer, served, fun impossible => absurd rfl impossible⟩

/-- A read that is handled adds itself, the database that it saw and its replies. -/
theorem SlotServed.handle {world after : World} {chunk : Chunk} {later : List Action}
    {log : Connection} (before : SlotServed (world.clients slot) log)
    (connected : (world.clients slot).fd ≠ -1)
    (terminated
      : (world.receive slot chunk).request slot = .add
        → nul ∈ addString ((world.receive slot chunk).message slot))
    (handled : handleClientFsm env dbfd (world.receive slot chunk) slot = .ok (after, later))
    : SlotServed (after.clients slot)
        ⟨log.inputs ++ [(chunk, visible world.db)], log.replies ++ repliesOf later⟩ := by
  obtain ⟨state, buffer, served, opened⟩ := before.served
  obtain ⟨rfl, rfl⟩ := opened connected
  obtain ⟨next, final, clients, -⟩ :=
    (handleClientFsm_handled handled).clients fun asked => Or.inl (terminated asked)
  have fd : (after.clients slot).fd = (world.clients slot).fd := by
    rw [clients, World.receive_setClient, World.setClient_self]
  exact ⟨fun same => absurd (fd.symm.trans same) connected, _, _,
    served.handled terminated handled, fun _ => ⟨rfl, rfl⟩⟩

/-- Every step with terminated add strings keeps the connections explained. -/
theorem ConnectionsServed.step {step : StepRecord} (kept : ConnectionsServed steps step.before)
    (terminated : TerminatedAdds step.before step.env)
    (result : pollLoopStep step.env dbfd step.before = .ok (step.after, step.actions))
    : ConnectionsServed (steps ++ [step]) step.after := by
  obtain ⟨entries, started⟩ := kept.pollSet result
  refine ⟨entries, started, fun slot => ?_⟩
  have before := kept.slots slot
  -- a slot that the step is not about keeps its client and its connection
  have untouched (reading : step.before.reading ≠ some slot)
      (others : ∀ action ∈ step.actions, slotOf action ≠ some slot)
      (same : step.after.world.clients slot = step.before.world.clients slot)
      : SlotServed (step.after.world.clients slot) (connection slot (steps ++ [step])) := by
    rwa [connection_snoc, connectionStep_other reading others, same]
  rcases pollLoopStep_event result with
      ⟨quiet, ⟨same, idle | refused⟩ | ⟨other, free, valid, same, accepted⟩⟩
      | ⟨other, reading, ⟨ended, same, disconnected⟩ | ⟨chunk, later, received, handled, all⟩⟩
  · exact untouched (by simp [quiet]) (by simp [idle]) (by rw [same])
  · exact untouched (by simp [quiet]) (by simp [refused, slotOf]) (by rw [same])
  · by_cases own : slot = other
    · subst own
      have opened : connectionStep slot (connection slot steps) step = ⟨[], []⟩ := by
        simp [connectionStep, opens, accepted]
      rw [connection_snoc, opened, same, World.connect_self]
      exact before.connect free valid
    · exact untouched (by simp [quiet]) (by simpa [accepted, slotOf] using Ne.symm own)
        (by rw [same, World.connect_other own])
  · by_cases own : slot = other
    · subst own
      have closed : connectionStep slot (connection slot steps) step = connection slot steps := by
        simp [connectionStep, opens, disconnected, inputOf, ended, sentTo]
      rw [connection_snoc, closed, same, World.disconnect_self]
      exact before.disconnect
    · exact untouched (by simpa [reading] using Ne.symm own)
        (by simpa [disconnected, slotOf] using Ne.symm own)
        (by rw [same, World.disconnect_other own])
  · have outcome := handleClientFsm_handled handled
    by_cases own : slot = other
    · subst own
      have grown : connectionStep slot (connection slot steps) step
          = ⟨(connection slot steps).inputs ++ [(chunk, visible step.before.world.db)],
              (connection slot steps).replies ++ repliesOf later⟩ := by
        have sent : sentTo slot later = repliesOf later :=
          sentTo_own fun _ _ member => outcome.sent_own member
        have closed : opens slot step = false := by
          rw [opens, all, List.any_cons, List.any_eq_false.mpr]
          · rfl
          · intro action member
            rcases outcome.own action member with ⟨_, _, rfl⟩ | ⟨_, rfl⟩ | ⟨_, rfl⟩ <;> simp
        have reply : sentTo slot step.actions = repliesOf later := by
          rw [all, ← sent]
          rfl
        simp [connectionStep, closed, reply, inputOf, reading, received]
      rw [connection_snoc, grown]
      exact before.handle (kept.connected reading) (terminated slot reading chunk received) handled
    · have differs : some other ≠ some slot := fun same => own (Option.some.inj same).symm
      refine untouched (by rwa [reading]) ?_ ?_
      · intro action member
        rw [all] at member
        rcases List.mem_cons.mp member with rfl | replied
        · exact differs
        · rcases outcome.own action replied with ⟨_, _, rfl⟩ | ⟨_, rfl⟩ | ⟨_, rfl⟩ <;>
            exact differs
      · obtain ⟨next, final, clients, -⟩ :=
          outcome.clients fun asked => Or.inl (terminated other reading chunk received asked)
        rw [clients, World.receive_setClient, World.setClient_other own]

/-- Whatever happens in a run with terminated add strings, its connections are explained. -/
theorem connectionsServed_of_run {db : Db} {file : OpenFile UInt8} {listenFd : Int32}
    (run : RecordedRun dbfd TerminatedAdds (startServer db file listenFd) steps server)
    : ConnectionsServed steps server := by
  refine run.invariant (motive := fun steps server => ConnectionsServed steps server) ?_ ?_
  · refine ⟨fun j behind => ?_, ?_, fun slot => ?_⟩
    · have listening : j ≠ 0 := fun same => by simp [same] at behind
      simp [startServer, listening]
    · simp [startServer]
    · exact ⟨fun _ => rfl, .hello, clearedBuffer, .opened, fun impossible => absurd rfl impossible⟩
  · rintro steps server step next kept ⟨rfl, rfl, terminated, result⟩
    exact kept.step terminated result

/-- In every run in which add strings are terminated, an event of one slot leaves the others
alone. In two such runs, of different servers and in different slots, connections with the same
reads that saw the same databases were sent the same messages, byte for byte.
-/
theorem connections_isolated {dbfd dbfd' : Nat} {db db' : Db} {file file' : OpenFile UInt8}
    {listenFd listenFd' : Int32} {steps steps' : List StepRecord} {server server' : State}
    (slot slot' : Slot)
    (run : RecordedRun dbfd TerminatedAdds (startServer db file listenFd) steps server)
    (run' : RecordedRun dbfd' TerminatedAdds (startServer db' file' listenFd') steps' server')
    (same : (connection slot steps).inputs = (connection slot' steps').inputs)
    : (∀ step ∈ steps, LeavesOthers step)
      ∧ (connection slot steps).replies = (connection slot' steps').replies := by
  constructor
  · intro step taken
    obtain ⟨-, terminated, result⟩ := run.step taken
    exact leavesOthers_step terminated result
  · obtain ⟨_, _, served, -⟩ := ((connectionsServed_of_run run).slots slot).served
    obtain ⟨_, _, served', -⟩ := ((connectionsServed_of_run run').slots slot').served
    exact (served.functional served' same).2.2

-----------------------------------------------------------------------------------------
-- Two connections with the same hello
-----------------------------------------------------------------------------------------

/-- While no message of a slot is handled, its connection stays as it was, or is a new one when
the slot is opened. By induction on that part of the run.
-/
private theorem connection_unhandled {guard : Guard} {state : State} {more : List StepRecord}
    (steps : List StepRecord) (run : RecordedRun dbfd guard state more next)
    (unread
      : ∀ phase buffer, .handled slot phase buffer ∉ (more.map (·.actions)).flatten)
    : connection slot (steps ++ more)
      = if more.any (opens slot) then ⟨[], []⟩ else connection slot steps := by
  induction run with
  | nil => simp
  | @snoc earlier state step next _ last ih =>
      obtain ⟨rfl, rfl, -, result⟩ := last
      simp only [List.map_append, List.flatten_append, List.mem_append, not_or] at unread
      have before := ih fun phase buffer => (unread phase buffer).1
      have quiet (phase : StateE) (buffer : Buffer)
          : .handled slot phase buffer ∉ step.actions := by
        simpa using (unread phase buffer).2
      rw [← List.append_assoc, connection_snoc, before, List.any_append, List.any_cons,
        List.any_nil, Bool.or_false]
      -- a step that does not open the slot leaves its connection alone
      have stays (closed : opens slot step = false)
          (same : ∀ log, connectionStep slot log step = log)
          : connectionStep slot
              (if earlier.any (opens slot) then ⟨[], []⟩ else connection slot steps) step
            = if earlier.any (opens slot) || opens slot step then ⟨[], []⟩
              else connection slot steps := by
        rw [same, closed, Bool.or_false]
      rcases pollLoopStep_event result with
          ⟨unread, ⟨-, idle | refused⟩ | ⟨other, -, -, -, accepted⟩⟩
          | ⟨other, reading, ⟨ended, -, disconnected⟩ | ⟨chunk, later, -, handled, all⟩⟩
      · exact stays (by simp [opens, idle])
          fun log => by simp [connectionStep, opens, sentTo, inputOf, idle, unread]
      · exact stays (by simp [opens, refused])
          fun log => by simp [connectionStep, opens, sentTo, inputOf, refused, unread]
      · by_cases own : other = slot
        · simp [connectionStep, opens, accepted, own]
        · exact stays (by simp [opens, accepted, own])
            fun log => by simp [connectionStep, opens, sentTo, inputOf, accepted, own, unread]
      · exact stays (by simp [opens, disconnected])
          fun log => by simp [connectionStep, opens, sentTo, inputOf, disconnected, ended]
      · have differs : other ≠ slot := by
          rintro rfl
          exact quiet _ _ (all ▸ List.mem_cons_self)
        have others : ∀ action ∈ step.actions, slotOf action ≠ some slot := by
          intro action member
          rw [all] at member
          rcases List.mem_cons.mp member with rfl | replied
          · simpa [slotOf] using differs
          · rcases (handleClientFsm_handled handled).own action replied with
                ⟨_, _, rfl⟩ | ⟨_, rfl⟩ | ⟨_, rfl⟩ <;>
              simpa [slotOf] using differs
        refine stays ?_ fun log => connectionStep_other ?_ others
        · rw [opens, List.any_eq_false]
          intro action member
          have other := others action member
          cases action <;> simp_all [slotOf]
        · rw [reading]
          simpa using differs

/-- The server with its steps has a new connection in the slot: it is open, and nothing was read
from it.
-/
structure NewConnection (dbfd : Nat) (db : Db) (file : OpenFile UInt8) (listenFd : Int32)
    (slot : Slot) (steps : List StepRecord) (server : State)
    : Prop where
  run : RecordedRun dbfd Orderly (startServer db file listenFd) steps server
  position : server.position = .poll
  sameDb : server.world.db = db
  connected : (server.world.clients slot).fd ≠ -1
  state : (server.world.clients slot).state = .hello
  silent : connection slot steps = ⟨[], []⟩

/-- The client of a new connection can greet, and this is all that happens on it. -/
private theorem NewConnection.greets {db : Db} {file : OpenFile UInt8} {listenFd : Int32}
    (opened : NewConnection dbfd db file listenFd slot steps server) (padding : Bytes 2)
    : ∃ more next,
        RecordedRun dbfd TerminatedAdds (startServer db file listenFd) (steps ++ more) next
        ∧ (connection slot (steps ++ more)).inputs = [(helloChunk padding, visible db)] := by
  have consistent := (startServer_consistent db file listenFd).run_orderly opened.run.run
  obtain ⟨polled, history, i, inside, reach, quiet, below, ready, found⟩ :=
    consistent.reach_run dbfd opened.position opened.connected
  obtain ⟨earlier, rfl, reached⟩ := recordedRun_of_run reach
  let server' : State := ⟨server.world, polled, server.nfds, .scan i 1⟩
  have reading : server'.reading = some slot :=
    (State.reading_of_scan server' rfl inside ⟨below, Nat.one_pos⟩ ready).trans found
  have asked := World.receive_hello opened.state padding
  let env := clientEnv (some (helloChunk padding)) none
  obtain ⟨buffer, handled⟩ := handleClientFsm_greeting env dbfd _ _ asked
  obtain ⟨position, step⟩ := pollLoopStep_reading env dbfd reading
  rw [serveClient_handled handled] at step
  obtain ⟨next, sent, result, closed⟩ : ∃ next sent,
      pollLoopStep env dbfd server' = .ok (next, sent)
      ∧ opens slot ⟨server', env, sent, next⟩ = false :=
    ⟨_, _, step, by simp [opens]⟩
  have terminated : TerminatedAdds server' env := by
    rintro other same chunk ⟨⟩ add
    obtain rfl := Option.some.inj (reading.symm.trans same)
    rw [asked] at add
    cases add
  have last : RecordedStep dbfd TerminatedAdds server' ⟨server', env, sent, next⟩ next :=
    ⟨rfl, rfl, terminated, result⟩
  have still : connection slot (steps ++ earlier) = ⟨[], []⟩ := by
    rw [connection_unhandled steps reached (by simp [quiet]), opened.silent, ite_self]
  have whole := RecordedRun.mono (fun _ _ orderly => orderly.terminated)
    (opened.run.append reached)
  refine ⟨earlier ++ [⟨server', env, sent, next⟩], next, ?_, ?_⟩
  · rw [← List.append_assoc]
    exact whole.snoc last
  · rw [← List.append_assoc, connection_snoc, still]
    have read : env.read = some (helloChunk padding) := rfl
    simp only [connectionStep, closed, inputOf, reading, read, Bool.false_eq_true, if_false,
      if_true]
    rw [← opened.sameDb]
    rfl

/-- On any server a first client can connect. -/
private theorem newConnection_first (dbfd : Nat) (db : Db) (file : OpenFile UInt8)
    (listenFd : Int32)
    : ∃ steps server, NewConnection dbfd db file listenFd 0 steps server := by
  have free : findFreeSlot initClients = some 0 :=
    findFreeSlot_first rfl fun other below => absurd below (Fin.not_lt_zero other)
  obtain ⟨fds, history, run, accepted⟩ :=
    (startServer_consistent db file listenFd).connect_run dbfd rfl free
      (show (5 : Int32) ≠ -1 by decide) fun other => by
        simp only [startServer, initClients]
        decide
  obtain ⟨steps, rfl, recorded⟩ := recordedRun_of_run run
  refine ⟨steps, _, recorded, rfl, rfl, ?_, ?_, ?_⟩
  · simp [startServer, World.connect]
  · simp [startServer, World.connect]
  · rw [← List.nil_append steps, connection_unhandled [] recorded (by simp [accepted])]
    exact ite_self _

/-- A part of the run in which the slot is accepted opens it. -/
private theorem any_opens {more : List StepRecord} {fd : Int32}
    (accepted : .accepted slot fd ∈ (more.map (·.actions)).flatten)
    : more.any (opens slot) = true := by
  obtain ⟨actions, member, inside⟩ := List.mem_flatten.mp accepted
  obtain ⟨step, taken, rfl⟩ := List.mem_map.mp member
  exact List.any_eq_true.mpr ⟨step, taken, List.any_eq_true.mpr ⟨_, inside, by simp⟩⟩

/-- On any server a client can connect in the first slot after another one has left it, while a
third one connects and greets in the second slot.
-/
private theorem newConnection_reused (dbfd : Nat) (db : Db) (file : OpenFile UInt8)
    (listenFd : Int32)
    : ∃ steps server,
        NewConnection dbfd db file listenFd 0 steps server
        ∧ (steps.map (·.actions)).flatten.filterMap slotOf = [0, 0, 0, 1, 1, 1] := by
  let world := (startServer db file listenFd).world
  -- the world when the first connection is over, and with the two others
  let left := (world.connect 0 5).disconnect 0
  let both := (left.connect 0 6).connect 1 7
  have freed (other : Slot) : (left.clients other).fd = -1 := by
    by_cases first : other = 0
    · rw [first, World.disconnect_self]
    · rw [World.disconnect_other first, World.connect_other first]
      rfl
  have taken (other : Slot)
      : ((left.connect 0 6).clients other).fd = if other = 0 then 6 else -1 := by
    by_cases first : other = 0
    · rw [if_pos first, first, World.connect_self]
    · rw [if_neg first, World.connect_other first, freed]
  have free {clients : Clients} (none : (clients 0).fd = -1) : findFreeSlot clients = some 0 :=
    findFreeSlot_first none fun other below => absurd below (Fin.not_lt_zero other)
  have consistent := startServer_consistent db file listenFd
  obtain ⟨fds1, history1, run1, flat1⟩ := consistent.connect_run dbfd rfl (free rfl)
    (show (5 : Int32) ≠ -1 by decide) fun other => by
      simp only [startServer, initClients]
      decide
  obtain ⟨fds2, history2, run2, flat2⟩ := (consistent.run_orderly run1).leave_run dbfd
    rfl (show ((world.connect 0 5).clients 0).fd ≠ -1 by simp [World.connect])
  have run12 := run1.append run2
  obtain ⟨fds3, history3, run3, flat3⟩ := (consistent.run_orderly run12).connect_run dbfd rfl
    (free (freed 0)) (show (6 : Int32) ≠ -1 by decide) fun other => by
      rw [freed]
      decide
  have run123 := run12.append run3
  obtain ⟨fds4, history4, run4, flat4⟩ := (consistent.run_orderly run123).connect_run dbfd rfl
    (show findFreeSlot (left.connect 0 6).clients = some 1 from
      findFreeSlot_first (by rw [taken]; rfl) fun other below => by
        obtain rfl : other = 0 := Fin.ext (by simpa [Fin.lt_def] using below)
        rw [taken]
        decide)
    (show (7 : Int32) ≠ -1 by decide) fun other => by
      rw [taken]
      split_ifs <;> decide
  obtain ⟨buffer, reply, fds5, history5, run5, flat5⟩ :=
    (consistent.run_orderly (run123.append run4)).greet_run dbfd rfl
      (show (both.clients 1).fd ≠ -1 by simp [both, World.connect])
      (show (both.clients 1).state = .hello by simp [both, World.connect])
      (clearedBuffer.take 2)
  obtain ⟨before, started, earlier⟩ := recordedRun_of_run run12
  obtain ⟨more, actions, later⟩ := recordedRun_of_run ((run3.append run4).append run5)
  have flat := congrArg List.flatten actions
  rw [List.flatten_append, List.flatten_append, flat3, flat4, flat5] at flat
  have client : (both.setClient 1 .msg buffer).clients 0
      = ⟨6, .hello, (left.clients 0).buffer⟩ := by
    rw [World.setClient_other (by decide), World.connect_other (by decide), World.connect_self]
  refine ⟨before ++ more, _, ⟨earlier.append later, rfl, rfl, ?_, ?_, ?_⟩, ?_⟩
  · exact (congrArg ClientState.fd client).trans_ne (show (6 : Int32) ≠ -1 by decide)
  · exact congrArg ClientState.state client
  · rw [connection_unhandled before later (by simp [flat]),
      any_opens (by rw [flat]; exact List.mem_cons_self), if_pos rfl]
  · rw [List.map_append, List.flatten_append, started, List.flatten_append, flat1, flat2, flat]
    rfl

/-- A client greets a new server; another one greets a server with another file, in a slot that
was used before, while a third client connects and greets there. They are sent the same.
-/
theorem connections_isolated_reused
    : ∃ steps server steps' server',
        RecordedRun 3 TerminatedAdds (startServer ⟨headerOf 0, some []⟩ (.opened []) 4) steps server
        ∧ RecordedRun 5 TerminatedAdds (startServer ⟨headerOf 0, some []⟩ (.opened [1, 2]) 6) steps'
          server'
        ∧ (connection 0 steps).inputs.length = 1
        ∧ [0, 0, 0, 1, 1, 1] <+: (steps'.map (·.actions)).flatten.filterMap slotOf
        ∧ (connection 0 steps).replies = (connection 0 steps').replies := by
  let padding := clearedBuffer.take 2
  obtain ⟨steps, server, first⟩ := newConnection_first 3 ⟨headerOf 0, some []⟩ (.opened []) 4
  obtain ⟨steps', server', reused, events⟩ :=
    newConnection_reused 5 ⟨headerOf 0, some []⟩ (.opened [1, 2]) 6
  obtain ⟨more, next, run, inputs⟩ := first.greets padding
  obtain ⟨more', next', run', inputs'⟩ := reused.greets padding
  refine ⟨_, next, _, next', run, run', by rw [inputs]; rfl, ?_, ?_⟩
  · rw [List.map_append, List.flatten_append, List.filterMap_append, events]
    exact List.prefix_append _ _
  · exact (connections_isolated 0 0 run run' (inputs.trans inputs'.symm)).2

end LowlevelAcademy.Correctness
