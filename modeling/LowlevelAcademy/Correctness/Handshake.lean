import LowlevelAcademy.Server.Progress

/-! The handshake gate: the state of every slot is tied to what happened on its connection
since its own accept, so only a client that said hello reaches the database.
-/

namespace LowlevelAcademy.Correctness

open LowlevelAcademy.Foundations
open LowlevelAcademy.Database
open LowlevelAcademy.Server

/-- The next log of the connection in a slot: an accept opens a new one, a disconnect ends it,
and everything else is added to it.
-/
def logStep (slot : Slot) (log : Option (List Action)) (action : Action)
    : Option (List Action) :=
  match action with
  | .accepted other _ => if other = slot then some [] else log.map (· ++ [action])
  | .disconnected other => if other = slot then none else log.map (· ++ [action])
  | _ => log.map (· ++ [action])

/-- Everything the server did since it accepted the connection that is now in the slot; none
when there is no connection.
-/
def connectionLog (slot : Slot) (history : List Action) : Option (List Action) :=
  history.foldl (logStep slot) none

/-- A hello with the server's version was handled for the slot. -/
def Greeted (slot : Slot) (log : List Action) : Prop :=
  ∃ buffer, .handled slot .hello buffer ∈ log ∧ Greets buffer.toList

/-- The state of a slot fits its connection: `STATE_MSG` if a hello was handled on it and
`STATE_HELLO` if not, and neither without a connection.
-/
def Gated (slot : Slot) (state : StateE) : Option (List Action) → Prop
  | none => state ≠ .hello ∧ state ≠ .msg
  | some log => state = .hello ∧ ¬ Greeted slot log ∨ state = .msg ∧ Greeted slot log

/-- The action neither opens nor ends the connection in the slot. -/
def Within (slot : Slot) : Action → Prop
  | .accepted other _ | .disconnected other => other ≠ slot
  | _ => True

/-- Actions within a connection extend its log, by induction on them. -/
theorem connectionLog_within {slot : Slot} {actions : List Action}
    (within : ∀ action ∈ actions, Within slot action) (history : List Action)
    : connectionLog slot (history ++ actions)
      = (connectionLog slot history).map (· ++ actions) := by
  induction actions generalizing history with
  | nil => simp
  | cons action later ih =>
      have first : connectionLog slot (history ++ [action])
          = (connectionLog slot history).map (· ++ [action]) := by
        have inside := within action List.mem_cons_self
        rw [connectionLog, List.foldl_append, connectionLog]
        cases action <;> simp_all [logStep, Within]
      rw [List.append_cons, ih (fun other member => within other (List.mem_cons_of_mem _ member)),
        first, Option.map_map]
      simp [Function.comp_def]

theorem connectionLog_accepted (slot : Slot) (fd : Int32) (history : List Action)
    : connectionLog slot (history ++ [.accepted slot fd]) = some [] := by
  simp [connectionLog, logStep]

theorem connectionLog_disconnected (slot : Slot) (history : List Action)
    : connectionLog slot (history ++ [.disconnected slot]) = none := by
  simp [connectionLog, logStep]

theorem greeted_append {slot : Slot} {log more : List Action}
    : Greeted slot (log ++ more) ↔ Greeted slot log ∨ Greeted slot more := by
  simp only [Greeted, List.mem_append, or_and_right, exists_or]

/-- A slot in `STATE_MSG` has a connection on which a hello was handled. -/
theorem Gated.greeted {slot : Slot} {state : StateE} {log : Option (List Action)}
    (gated : Gated slot state log) (msg : state = .msg)
    : ∃ known, log = some known ∧ Greeted slot known := by
  cases log with
  | none => exact absurd msg gated.2
  | some known =>
      rcases gated with ⟨hello, -⟩ | ⟨-, greeted⟩
      · rw [hello] at msg
        cases msg
      · exact ⟨known, rfl, greeted⟩

/-- Actions within a connection that contain no greeting keep a slot with its state gated. -/
theorem Gated.quiet {slot : Slot} {state : StateE} {history actions : List Action}
    (gated : Gated slot state (connectionLog slot history))
    (within : ∀ action ∈ actions, Within slot action) (silent : ¬ Greeted slot actions)
    : Gated slot state (connectionLog slot (history ++ actions)) := by
  rw [connectionLog_within within]
  cases log : connectionLog slot history with
  | none => rwa [log] at gated
  | some known =>
      rw [log] at gated
      simpa only [Option.map_some, Gated, greeted_append, silent, or_false] using gated

variable {env : Env} {dbfd : Nat} {server : State} {world next : World}
variable {slot other : Slot} {actions later history : List Action}

/-- The actions of handling a message stay within every connection and greet nobody. -/
private theorem handled_within (handled : Handled env dbfd world other next later)
    : (∀ action ∈ later, Within slot action) ∧ ¬ Greeted slot later := by
  constructor
  · intro action member
    rcases handled.own action member with ⟨_, _, rfl⟩ | ⟨_, rfl⟩ | ⟨_, rfl⟩ <;> exact trivial
  · rintro ⟨buffer, member, -⟩
    rcases handled.own _ member with ⟨_, _, impossible⟩ | ⟨_, impossible⟩ | ⟨_, impossible⟩
      <;> cases impossible

/-- The label of a handled message greets exactly when it is a greeting of this slot. -/
private theorem greeted_handled {state : StateE} {buffer : Buffer}
    (silent : ¬ Greeted slot later)
    : Greeted slot (.handled other state buffer :: later)
      ↔ other = slot ∧ state = .hello ∧ Greets buffer.toList := by
  rw [← List.singleton_append, greeted_append, or_iff_left silent]
  simp only [Greeted, List.mem_singleton, Action.handled.injEq]
  constructor
  · rintro ⟨_, ⟨rfl, rfl, rfl⟩, greets⟩
    exact ⟨rfl, rfl, greets⟩
  · rintro ⟨rfl, rfl, greets⟩
    exact ⟨buffer, ⟨rfl, rfl, rfl⟩, greets⟩

/-- A message is a greeting exactly when it decodes to one in `STATE_HELLO`. -/
private theorem request_greeting_iff
    : world.request slot = .greeting
      ↔ (world.clients slot).state = .hello ∧ Greets (world.message slot) :=
  ⟨world.request_asked slot, fun ⟨state, greets⟩ => by
    rw [World.request, state]
    exact requestOf_greeting greets⟩

/-- Every turn keeps every slot gated. -/
theorem gated_turn (turn : Turn env dbfd server actions next)
    (terminated : TerminatedAdds server env)
    (gated : Gated slot (server.world.clients slot).state (connectionLog slot history))
    : Gated slot (next.clients slot).state (connectionLog slot (history ++ actions)) := by
  cases turn with
  | idle => simpa using gated
  | refused => exact gated.quiet (by simp [Within]) (by simp [Greeted])
  | @accepted taken =>
      by_cases same : taken = slot
      · subst same
        rw [connectionLog_accepted]
        exact Or.inl ⟨by simp [World.connect], by simp [Greeted]⟩
      · simp only [World.connect, Function.update_of_ne (Ne.symm same)]
        exact gated.quiet (by simpa [Within] using same) (by simp [Greeted])
  | @disconnected left =>
      by_cases same : left = slot
      · subst same
        rw [connectionLog_disconnected]
        exact ⟨by simp [World.disconnect], by simp [World.disconnect]⟩
      · simp only [World.disconnect, Function.update_of_ne (Ne.symm same)]
        exact gated.quiet (by simpa [Within] using same) (by simp [Greeted])
  | @handled sender chunk _ later reading received outcome =>
      obtain ⟨within, silent⟩ := @handled_within _ _ _ _ slot _ _ outcome
      obtain ⟨state, buffer, clients, moved⟩ := outcome.clients fun asked =>
        Or.inl (terminated sender reading chunk received asked)
      rw [World.receive_setClient] at clients
      rw [World.receive_state] at moved
      have inside : ∀ action ∈ Action.handled sender (server.world.clients sender).state
          ((server.world.receive sender chunk).clients sender).buffer :: later,
          Within slot action :=
        List.forall_mem_cons.mpr ⟨trivial, within⟩
      by_cases same : sender = slot
      · subst same
        simp only [clients, World.setClient, Function.update_self]
        by_cases greeting : (server.world.receive sender chunk).request sender = .greeting
        · obtain ⟨hello, greets⟩ := request_greeting_iff.mp greeting
          rw [World.receive_state] at hello
          rw [if_pos greeting] at moved
          rw [connectionLog_within inside]
          cases log : connectionLog sender history with
          | none =>
              rw [log] at gated
              exact absurd hello gated.1
          | some known =>
              exact Or.inr ⟨moved,
                greeted_append.mpr (Or.inr ((greeted_handled silent).mpr ⟨rfl, hello, greets⟩))⟩
        · rw [if_neg greeting] at moved
          rw [moved]
          refine gated.quiet inside fun greeted => greeting ?_
          obtain ⟨-, hello, greets⟩ := (greeted_handled silent).mp greeted
          exact request_greeting_iff.mpr ⟨by rwa [World.receive_state], greets⟩
      · simp only [clients, World.setClient, Function.update_of_ne (Ne.symm same)]
        exact gated.quiet inside fun greeted => same ((greeted_handled silent).mp greeted).1

/-- In every run with terminated add strings every slot is gated by its own connection. -/
theorem gated_run {db : Db} {file : OpenFile UInt8} {listenFd : Int32}
    {labels : List (List Action)}
    (run : Run (Step dbfd TerminatedAdds) (startServer db file listenFd) labels server)
    (slot : Slot)
    : Gated slot (server.world.clients slot).state (connectionLog slot labels.flatten) := by
  refine run.invariant
    (motive := fun labels server =>
      Gated slot (server.world.clients slot).state (connectionLog slot labels.flatten))
    ⟨by simp [startServer, initClients], by simp [startServer, initClients]⟩ ?_
  rintro labels state actions next gated ⟨env, terminated, result⟩
  rw [List.flatten_append, List.flatten_singleton]
  exact gated_turn (pollLoopStep_turn result) terminated gated

-----------------------------------------------------------------------------------------
-- Before the hello the database is out of reach
-----------------------------------------------------------------------------------------

/-- The world with another database and file. -/
def withDatabase (world : World) (db : Db) (file : OpenFile UInt8) : World where
  clients := world.clients
  db := db
  file := file

/-- The server with another database and file. -/
def serverWithDatabase (server : State) (db : Db) (file : OpenFile UInt8) : State where
  world := withDatabase server.world db file
  fds := server.fds
  nfds := server.nfds
  position := server.position

/-- What the handler does in `STATE_HELLO` does not depend on the database. -/
private theorem handleHello_withDatabase (world : World) (slot : Slot) (buffer : Buffer)
    (db : Db) (file : OpenFile UInt8)
    : handleHello (withDatabase world db file) slot buffer
      = (withDatabase (handleHello world slot buffer).1 db file,
        (handleHello world slot buffer).2) := by
  simp only [handleHello]
  split_ifs <;> rfl

/-- Serving a client in `STATE_HELLO` does not depend on the database. -/
private theorem serveClient_withDatabase {nfds nfds' : Nat}
    (hello : (world.clients slot).state = .hello)
    (served : serveClient env dbfd world nfds slot = .ok (next, nfds', actions)) (db : Db)
    (file : OpenFile UInt8)
    : serveClient env dbfd (withDatabase world db file) nfds slot
      = .ok (withDatabase next db file, nfds', actions) := by
  simp only [serveClient] at served ⊢
  cases read : env.read with
  | none =>
      simp only [read, Except.ok.injEq, Prod.mk.injEq] at served
      obtain ⟨rfl, rfl, rfl⟩ := served
      rfl
  | some chunk =>
      have handled (other : World) (same : other.clients = (world.receive slot chunk).clients)
          : handleClientFsm env dbfd other slot
            = .ok (handleHello other slot (other.clients slot).buffer.swapHeader) := by
        simp only [handleClientFsm, same, World.receive_state, hello]
      let after := handleHello (world.receive slot chunk) slot
        ((world.receive slot chunk).clients slot).buffer.swapHeader
      have sighted : handleClientFsm env dbfd (world.receive slot chunk) slot = .ok after :=
        handled _ rfl
      have received : (withDatabase world db file).receive slot chunk
          = withDatabase (world.receive slot chunk) db file :=
        rfl
      have blind : handleClientFsm env dbfd (withDatabase (world.receive slot chunk) db file) slot
          = .ok (withDatabase after.1 db file, after.2) := by
        rw [handled (withDatabase (world.receive slot chunk) db file) rfl,
          handleHello_withDatabase]
        rfl
      simp only [read, sighted] at served
      obtain ⟨rfl, rfl, rfl⟩ := by simpa only [Except.ok.injEq, Prod.mk.injEq] using served
      simp only [received, blind]
      rfl

/-- Only a turn of the loop over the entries handles a message, and it handles the one that
was read for its entry.
-/
private theorem handled_step {after : State} {state : StateE} {buffer : Buffer}
    (result
      : pollLoopStep env dbfd server = .ok (after, .handled slot state buffer :: later))
    : ∃ i nEvents world nfds, ∃ inside : i < maxClients + 1,
        server.position = .scan i nEvents
        ∧ (i ≤ server.nfds ∧ 0 < nEvents)
        ∧ (server.fds ⟨i, inside⟩).readable
        ∧ findSlotByFd server.world.clients (server.fds ⟨i, inside⟩).fd = some slot
        ∧ serveClient env dbfd server.world server.nfds slot
          = .ok (world, nfds, .handled slot state buffer :: later)
        ∧ after = ⟨world, server.fds, nfds, .scan (i + 1) (nEvents - 1)⟩
        ∧ state = (server.world.clients slot).state := by
  simp only [pollLoopStep] at result
  split at result
  · rcases pollStep_cases result with
        ⟨_, _, _, -, -, -,
          ⟨-, impossible⟩ | ⟨-, impossible | ⟨-, impossible⟩⟩ | ⟨_, -, -, -, impossible⟩⟩
      <;> cases impossible
  next i nEvents position =>
  rcases scanStep_cases result with
      ⟨-, impossible⟩
      | ⟨inside, more,
          ⟨-, -, impossible⟩ | ⟨taken, world, nfds, readable, found, served, rfl⟩⟩
  · cases impossible
  · cases impossible
  rcases serveClient_cases served with ⟨-, -, -, impossible⟩ | ⟨chunk, _, -, -, -, same⟩
  · cases impossible
  · obtain ⟨⟨rfl, state, -⟩, -⟩ := by
      simpa only [List.cons.injEq, Action.handled.injEq] using same
    exact ⟨i, nEvents, world, nfds, inside, position, more, readable, found, served, rfl, state⟩

/-- A step that handles a message in `STATE_HELLO` does the same to every other database: it
neither reads it nor changes it.
-/
theorem hello_withDatabase {after : State} {buffer : Buffer}
    (result
      : pollLoopStep env dbfd server = .ok (after, .handled slot .hello buffer :: later))
    (db : Db) (file : OpenFile UInt8)
    : pollLoopStep env dbfd (serverWithDatabase server db file)
      = .ok (serverWithDatabase after db file, .handled slot .hello buffer :: later) := by
  obtain ⟨i, nEvents, world, nfds, inside, position, more, readable, found, served, rfl,
    state⟩ := handled_step result
  obtain ⟨before, fds, count, _⟩ := server
  obtain rfl : _ = Position.scan i nEvents := position
  exact pollLoopStep_serve inside more readable found
    (serveClient_withDatabase state.symm served db file)

/-- Outside `STATE_MSG` a client is sent nothing but hello responses and errors. -/
private theorem sent_cases (handled : Handled env dbfd world slot next actions)
    {message : List UInt8} (sent : .sent other message ∈ actions)
    : (world.clients slot).state = .msg
      ∨ wireType message = MsgType.helloResp.code
      ∨ wireType message = MsgType.error.code := by
  cases handled with
  | greeting =>
      simp only [List.mem_singleton, Action.sent.injEq] at sent
      obtain ⟨-, rfl⟩ := sent
      rw [helloBytes, replyBytes, List.append_assoc, wireType_wireHeader]
      exact Or.inr (Or.inl rfl)
  | refused =>
      simp only [List.mem_singleton, Action.sent.injEq] at sent
      obtain ⟨-, rfl⟩ := sent
      rw [replyBytes, wireType_wireHeader]
      exact Or.inr (Or.inr rfl)
  | ignored => cases sent
  | listed asked | rejected asked | added asked => exact Or.inl (world.request_asked slot asked).1

-----------------------------------------------------------------------------------------
-- The gate
-----------------------------------------------------------------------------------------

/-- A hello with the server's version was handled on the connection that is now in the slot,
since its own accept.
-/
def LetIn (slot : Slot) (history : List Action) : Prop :=
  ∃ log, connectionLog slot history = some log ∧ Greeted slot log

/-- What the handshake guarantees for a step after `history`: only clients that were let in
change database or file or are sent responses to requests; in `STATE_HELLO` the database is
neither read nor changed; `STATE_MSG` is entered by a greeting only, never by an accept.
-/
structure Gate (env : Env) (dbfd : Nat) (history : List Action) (server : State)
    (actions : List Action) (after : State) : Prop where
  changes
    : after.world.db ≠ server.world.db ∨ after.world.file ≠ server.world.file
      → ∃ slot buffer later,
          actions = .handled slot .msg buffer :: later ∧ LetIn slot history
  replies
    : ∀ slot message,
        .sent slot message ∈ actions
        → wireType message = MsgType.employeeAddResp.code
          ∨ wireType message = MsgType.employeeListResp.code
        → LetIn slot history
  unread
    : ∀ slot buffer later,
        actions = .handled slot .hello buffer :: later
        → ∀ db file,
            pollLoopStep env dbfd (serverWithDatabase server db file)
              = .ok (serverWithDatabase after db file, actions)
  unchanged
    : ∀ slot buffer later,
        actions = .handled slot .hello buffer :: later
        → after.world.db = server.world.db ∧ after.world.file = server.world.file
  entered
    : ∀ slot,
        (after.world.clients slot).state = .msg
        → (server.world.clients slot).state ≠ .msg
        → ∃ buffer later,
            actions = .handled slot .hello buffer :: later ∧ Greets buffer.toList
  fresh
    : ∀ slot fd,
        .accepted slot fd ∈ actions
        → (after.world.clients slot).state = .hello

/-- Handling a message guarantees the gate when its slot is gated. -/
private theorem gate_handled {after : State} {chunk : Chunk}
    (outcome : Handled env dbfd (server.world.receive slot chunk) slot after.world later)
    (terminated
      : (server.world.receive slot chunk).request slot = .add
        → nul ∈ addString ((server.world.receive slot chunk).message slot))
    (gated : Gated slot (server.world.clients slot).state (connectionLog slot history))
    (labelled
      : actions
        = .handled slot (server.world.clients slot).state
            ((server.world.receive slot chunk).clients slot).buffer :: later)
    (result : pollLoopStep env dbfd server = .ok (after, actions))
    : Gate env dbfd history server actions after := by
  have state := server.world.receive_state slot chunk
  refine ⟨?_, ?_, ?_, ?_, ?_, ?_⟩
  · intro changed
    rcases outcome.database with ⟨sameDb, sameFile, -⟩ | ⟨asked, -⟩
    · rcases changed with other | other
      · exact absurd sameDb other
      · exact absurd sameFile other
    · have msg := state.symm.trans (World.request_asked _ _ asked).1
      exact ⟨slot, _, later, by rw [labelled, msg], gated.greeted msg⟩
  · intro target message sent type
    rw [labelled] at sent
    have replied : .sent target message ∈ later := by simpa using sent
    rcases outcome.own _ replied with ⟨_, _, impossible⟩ | ⟨_, same⟩ | ⟨_, impossible⟩
    · cases impossible
    · obtain ⟨rfl, -⟩ := Action.sent.inj same
      rcases sent_cases outcome replied with msg | known | known
      · exact gated.greeted (state.symm.trans msg)
      · rw [known] at type
        exact absurd type (by decide)
      · rw [known] at type
        exact absurd type (by decide)
    · cases impossible
  · rintro target buffer more rfl db file
    exact hello_withDatabase result db file
  · rintro target buffer more rfl
    obtain ⟨⟨rfl, hello, -⟩, -⟩ := by
      simpa only [List.cons.injEq, Action.handled.injEq] using labelled
    rcases outcome.database with ⟨sameDb, sameFile, -⟩ | ⟨asked, -⟩
    · exact ⟨sameDb, sameFile⟩
    · have msg := hello.trans (state.symm.trans (World.request_asked _ _ asked).1)
      cases msg
  · intro target msg notMsg
    obtain ⟨moved, buffer, clients, same⟩ := outcome.clients fun asked =>
      Or.inl (terminated asked)
    rw [World.receive_setClient] at clients
    rw [state] at same
    by_cases other : target = slot
    · subst other
      simp only [clients, World.setClient, Function.update_self] at msg
      split_ifs at same with greeting
      · obtain ⟨hello, greets⟩ := request_greeting_iff.mp greeting
        exact ⟨_, later, by rw [labelled, ← state, hello], greets⟩
      · exact absurd (same.symm.trans msg) notMsg
    · simp only [clients, World.setClient, Function.update_of_ne other] at msg
      exact absurd msg notMsg
  · intro target fd accepted
    rcases outcome.own _ (by simpa [labelled] using accepted) with
        ⟨_, _, impossible⟩ | ⟨_, impossible⟩ | ⟨_, impossible⟩
      <;> cases impossible

/-- The gate holds for every step of every run with terminated add strings, whatever clients
connect, send and disconnect in whatever order, and whichever slots and descriptors are used
again.
-/
theorem handshake_gate {db : Db} {file : OpenFile UInt8} {listenFd : Int32}
    {labels : List (List Action)}
    (run : Run (Step dbfd TerminatedAdds) (startServer db file listenFd) labels server)
    : ∀ env actions after,
        TerminatedAdds server env
        → pollLoopStep env dbfd server = .ok (after, actions)
        → Gate env dbfd labels.flatten server actions after := by
  intro env actions after terminated result
  have turn := pollLoopStep_turn result
  generalize same : after.world = world at turn
  cases turn with
  | idle => exact ⟨by simp [same], by simp, by simp, by simp, by simp_all, by simp⟩
  | refused => exact ⟨by simp [same], by simp, by simp, by simp, by simp_all, by simp⟩
  | @accepted taken =>
      refine ⟨by simp [same, World.connect], by simp, by simp, by simp, ?_, ?_⟩
      · intro slot msg notMsg
        by_cases own : slot = taken
        · simp [same, World.connect, own] at msg
        · simp only [same, World.connect, Function.update_of_ne own] at msg
          exact absurd msg notMsg
      · intro slot fd accepted
        simp only [List.mem_singleton, Action.accepted.injEq] at accepted
        simp [same, World.connect, accepted.1]
  | @disconnected left =>
      refine ⟨by simp [same, World.disconnect], by simp, by simp, by simp, ?_, by simp⟩
      intro slot msg notMsg
      by_cases own : slot = left
      · simp [same, World.disconnect, own] at msg
      · simp only [same, World.disconnect, Function.update_of_ne own] at msg
        exact absurd msg notMsg
  | @handled slot chunk _ later reading received outcome =>
      subst same
      exact gate_handled outcome (terminated slot reading chunk received) (gated_run run slot)
        rfl result

/-- A client of a new server that said hello adds a record; the gate holds for what follows. -/
theorem handshake_gate_one
    : ∃ labels server,
        Run (Step 3 TerminatedAdds) (startServer ⟨headerOf 0, some []⟩ (.opened []) 4) labels
          server
        ∧ acceptedRequests labels.flatten = [[97, 44, 98, 44, 49]]
        ∧ ∀ env actions after,
            TerminatedAdds server env
            → pollLoopStep env 3 server = .ok (after, actions)
            → Gate env 3 labels.flatten server actions after := by
  have empty : Db.Holds ⟨headerOf 0, some []⟩ [] := ⟨rfl, rfl⟩
  obtain ⟨labels, server, -, -, run, one, -⟩ := first_add_run 3 (.opened []) 4 empty (by decide)
    (show nul ∉ [97, 44, 98, 44, 49] by decide) (by decide) (by decide)
  have terminated := run_of_orderly (fun _ _ orderly => orderly.terminated) run
  exact ⟨labels, server, terminated, one, handshake_gate terminated⟩

end LowlevelAcademy.Correctness
