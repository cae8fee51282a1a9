import LowlevelAcademy.Server.Responses
import LowlevelAcademy.Server.Startup
import LowlevelAcademy.Server.Traces

/-! One reply for each message: hellos, adds and lists are answered, and a message that
`STATE_MSG` does not know is not.
-/

namespace LowlevelAcademy.Correctness

open LowlevelAcademy.Foundations
open LowlevelAcademy.Database
open LowlevelAcademy.Server

/-- The type of the reply that a message calls for in a client's state: the matching response
when it is allowed there and well formed, and `MSG_ERROR` otherwise. `string` is its add string.
-/
def replyType (state : StateE) (message string : List UInt8) : MsgType :=
  match state with
  | .hello => if Greets message then .helloResp else .error
  | .msg =>
      if wireType message = MsgType.employeeAddReq.code ∧ wireLength message = 1 then
        if acceptable string then .employeeAddResp else .error
      else if wireType message = MsgType.employeeListReq.code then .employeeListResp
      else .error
  | _ => .error

/-- The messages are one reply of a type. Only a list response has more than the header: it
announces the number of records, and they follow.
-/
def IsReply (records : List Employee) (type : MsgType) (messages : List (List UInt8)) : Prop :=
  ∃ header entries,
    messages = header :: entries
    ∧ wireType header = type.code
    ∧ entries = (if type = .employeeListResp then records.map listEntry else [])
    ∧ (type = .employeeListResp → (wireLength header).toNat = records.length)

/-- The messages are the reply that the message in a client's buffer calls for. -/
def Answers (world : World) (slot : Slot) (messages : List (List UInt8)) : Prop :=
  IsReply (world.db.employees.getD [])
    (replyType (world.clients slot).state (world.message slot) (world.addRequest slot)) messages

/-- The step sends exactly one reply to the message that it reads, on the same connection. -/
def OneReply (dbfd : Nat) (server : State) (env : Env) (slot : Slot) (chunk : Chunk) : Prop :=
  ∃ next actions,
    pollLoopStep env dbfd server = .ok (next, actions)
    ∧ (∀ other message, .sent other message ∈ actions → other = slot)
    ∧ Answers (server.world.receive slot chunk) slot (repliesOf actions)

/-- The conditions on the message in a client's buffer: `STATE_MSG` knows it, an add string ends
in memory, an acceptable one can be counted and stored, and records to be listed were loaded.
-/
structure Answerable (env : Env) (world : World) (slot : Slot) : Prop where
  known : world.request slot ≠ .ignored
  ends : world.request slot = .add → EndsInside (world.addMemory slot)
  room
    : world.request slot = .add
      → acceptable (world.addRequest slot)
      → env.realloc ≠ none ∧ world.db.header.count.toNat < 65535
  loaded : world.request slot = .list → world.db.employees = none → world.db.header.count = 0

/-- A database whose array, if there is one, has as many records as the counter says. -/
def Filled (db : Db) : Prop :=
  ∀ employees, db.employees = some employees → db.Holds employees

variable {env : Env} {dbfd : Nat} {db : Db} {file : OpenFile UInt8} {server next : State}
variable {world after : World} {slot : Slot} {actions : List Action}

/-- The server enters the loop with such a database, whether or not it could read the records.
-/
theorem main_filled {newfile : Bool} {start : StartEnv} {path : Option (List UInt8)}
    (started : main newfile start dbfd path = some (db, file))
    : Filled db := by
  cases opened : openDatabase newfile start dbfd path with
  | none => simp [main, opened] at started
  | some result =>
      obtain ⟨header, middle⟩ := result
      obtain ⟨last, entered, -⟩ := main_of_opened opened
      rw [started] at entered
      obtain ⟨rfl, -⟩ := Prod.mk.inj (Option.some.inj entered)
      intro employees loaded
      cases read : readEmployees dbfd start.employeesAllocated middle header with
      | error reason => simp [read, Except.map, Except.toOption] at loaded
      | ok found =>
          simp only [read, Except.map, Except.toOption, Option.some.injEq] at loaded
          refine ⟨by simp [Except.map, Except.toOption, loaded], ?_⟩
          simp only [readEmployees] at read
          split_ifs at read
          obtain rfl := Except.ok.inj read
          rw [← loaded]
          simp

/-- Every step keeps the array and its counter together. -/
theorem filled_step (filled : Filled server.world.db)
    (result : pollLoopStep env dbfd server = .ok (next, actions))
    : Filled next.world.db := by
  rcases (pollLoopStep_turn result).database with ⟨sameDb, -, -⟩ | ⟨memory, accepts, -, -⟩
  · rwa [sameDb]
  · obtain ⟨earlier, holds, -⟩ := accepts.last
    intro employees found
    obtain rfl := Option.some.inj (holds.employees.symm.trans found)
    exact holds

/-- The reply that each request calls for. -/
theorem replyType_request (world : World) (slot : Slot) (string : List UInt8)
    : replyType (world.clients slot).state (world.message slot) string
      = match world.request slot with
        | .greeting => .helloResp
        | .add => if acceptable string then .employeeAddResp else .error
        | .list => .employeeListResp
        | .refused | .ignored => .error := by
  cases state : (world.clients slot).state <;>
    simp only [replyType, World.request, state, requestOf]
  · split_ifs <;> rfl
  · split_ifs <;> rfl

/-- A message that is just a header, with whatever padding and body, is one reply. -/
theorem isReply_single (records : List Employee) {type : MsgType} (length : UInt16)
    (rest : List UInt8) (single : type ≠ .employeeListResp)
    : IsReply records type [wireHeader type.code length ++ rest] :=
  ⟨_, [], rfl, wireType_wireHeader _ _ _, by rw [if_neg single],
    fun list => absurd list single⟩

/-- Listing succeeds only when the array is there or the counter is zero. -/
theorem loaded_of_listed {buffer last : Buffer} {sent : List (List UInt8)}
    (listed : fsmReplyList db buffer = .ok (last, sent)) (missing : db.employees = none)
    : db.header.count = 0 := by
  have zero : db.header.count.toNat = 0 := by
    by_contra positive
    obtain ⟨remaining, count⟩ := Nat.exists_eq_succ_of_ne_zero positive
    simp [fsmReplyList, missing, count, replyEmployees, employeeAt] at listed
  exact UInt16.toNat_inj.mp zero

/-- And then it sends one reply with all records. -/
theorem listed_of_loaded (filled : Filled db) (buffer : Buffer)
    (loaded : db.employees = none → db.header.count = 0)
    : ∃ last sent,
        fsmReplyList db buffer = .ok (last, sent)
        ∧ IsReply (db.employees.getD []) .employeeListResp sent := by
  have header (records : List Employee) (count : db.header.count.toNat = records.length)
      : IsReply records .employeeListResp
          (replyBytes buffer .employeeListResp db.header.count :: records.map listEntry) := by
    refine ⟨_, _, rfl, wireType_wireHeader _ _ _, rfl, fun _ => ?_⟩
    rw [replyBytes, wireLength_wireHeader, count]
  cases found : db.employees with
  | none =>
      have zero := loaded found
      have empty : Db.Holds ⟨db.header, some []⟩ [] := ⟨rfl, by simp [zero]⟩
      obtain ⟨last, listed⟩ := fsmReplyList_ok empty buffer
      refine ⟨last, _, ?_, header [] (by simp [zero])⟩
      simpa [fsmReplyList, zero, replyEmployees, found] using listed
  | some records =>
      have holds := filled records found
      obtain ⟨last, listed⟩ := fsmReplyList_ok holds buffer
      exact ⟨last, _, listed, header records holds.count⟩

/-- Handling an add request sends one reply, by whether its string is acceptable. -/
theorem isReply_of_add (records : List Employee) (asked : world.request slot = .add)
    (handled : handleClientFsm env dbfd world slot = .ok (after, actions))
    : IsReply records (if acceptable (world.addRequest slot) then .employeeAddResp else .error)
        (repliesOf actions) := by
  obtain ⟨buffer, edited, ⟨scanned, -, -, rfl⟩ | ⟨db, saved, scanned, -, -, -, rfl⟩⟩ :=
    handleClientFsm_add_cases asked handled
  · have refused : ¬ acceptable (world.addRequest slot) := by
      have status := (acceptable_of_added scanned).1
      simpa using status
    rw [if_neg refused]
    exact isReply_single records 0 _ (by decide)
  · have accepted := (acceptable_of_added scanned).1.mp rfl
    rw [if_pos accepted]
    exact isReply_single records 0 _ (by decide)

/-- The handler answers a message exactly when it is answerable, by the kinds of requests. -/
theorem handleClientFsm_answers_iff (filled : Filled world.db)
    : (∃ after actions,
        handleClientFsm env dbfd world slot = .ok (after, actions)
        ∧ Answers world slot (repliesOf actions))
      ↔ Answerable env world slot := by
  simp only [Answers, replyType_request]
  cases asked : world.request slot with
  | greeting =>
      obtain ⟨buffer, handled⟩ := handleClientFsm_greeting env dbfd world slot asked
      refine ⟨fun _ => ⟨?_, ?_, ?_, ?_⟩, fun _ => ⟨_, _, handled, ?_⟩⟩ <;> try simp [asked]
      rw [helloBytes, replyBytes, List.append_assoc]
      exact isReply_single _ 1 _ (by decide)
  | refused =>
      obtain ⟨buffer, handled⟩ := handleClientFsm_refused env dbfd world slot asked
      refine ⟨fun _ => ⟨?_, ?_, ?_, ?_⟩, fun _ => ⟨_, _, handled, ?_⟩⟩ <;> try simp [asked]
      exact isReply_single _ 0 _ (by decide)
  | ignored =>
      refine ⟨?_, fun answerable => absurd asked answerable.known⟩
      rintro ⟨after, actions, handled, header, entries, sent, -⟩
      rw [handleClientFsm_ignored env dbfd world slot asked] at handled
      obtain ⟨-, rfl⟩ := Prod.mk.inj (Except.ok.inj handled)
      cases sent
  | list =>
      have equation := handleClientFsm_list_eq env dbfd world slot asked
      constructor
      · rintro ⟨after, actions, handled, -⟩
        refine ⟨by simp [asked], by simp [asked], by simp [asked], fun _ missing => ?_⟩
        rw [equation, handleList] at handled
        split at handled
        · cases handled
        · next listed => exact loaded_of_listed listed missing
      · intro answerable
        obtain ⟨last, sent, listed, reply⟩ := listed_of_loaded filled
          (world.clients slot).buffer.swapHeader (answerable.loaded asked)
        rw [equation, handleList, listed]
        exact ⟨_, _, rfl, by rwa [repliesOf_sent]⟩
  | add =>
      constructor
      · rintro ⟨after, actions, handled, -⟩
        obtain ⟨buffer, edited, outcome⟩ := handleClientFsm_add_cases asked handled
        obtain ⟨status, db, scanned⟩ : ∃ status db,
            addEmployee env.realloc world.db (world.addMemory slot) = .ok ⟨status, db, edited⟩ := by
          rcases outcome with ⟨scanned, -⟩ | ⟨db, saved, scanned, -⟩
          · exact ⟨_, _, scanned⟩
          · exact ⟨_, _, scanned⟩
        refine ⟨by simp [asked], fun _ => ?_, fun _ => (acceptable_of_added scanned).2,
          by simp [asked]⟩
        by_contra runsOn
        rw [(addEmployee_overrun_iff env.realloc world.db _).mpr runsOn] at scanned
        cases scanned
      · intro answerable
        obtain ⟨⟨after, actions⟩, handled⟩ :=
          handleClientFsm_add_ok asked (answerable.ends asked) (answerable.room asked)
        exact ⟨after, actions, handled, isReply_of_add _ asked handled⟩

/-- A step that hands a message to the handler sends what the handler sends. -/
theorem oneReply_iff_handled {chunk : Chunk} (reading : server.reading = some slot)
    (received : env.read = some chunk)
    : OneReply dbfd server env slot chunk
      ↔ ∃ after later,
          handleClientFsm env dbfd (server.world.receive slot chunk) slot = .ok (after, later)
          ∧ Answers (server.world.receive slot chunk) slot (repliesOf later) := by
  constructor
  · rintro ⟨next, actions, result, -, reply⟩
    obtain ⟨later, handled, rfl⟩ := pollLoopStep_message result reading received
    exact ⟨_, later, handled, by simpa [repliesOf] using reply⟩
  · rintro ⟨after, later, handled, reply⟩
    obtain ⟨position, step⟩ := pollLoopStep_reading env dbfd reading
    simp only [serveClient, received, handled, Except.map] at step
    refine ⟨_, _, step, ?_, by simpa [repliesOf] using reply⟩
    intro other message sent
    exact (handleClientFsm_handled handled).sent_own (by simpa using sent)

/-- In every run, from whatever file the server was started on, a message gets exactly one
matching reply if and only if it is answerable.
-/
theorem one_reply_iff {newfile : Bool} {start : StartEnv} {path : Option (List UInt8)}
    {listenFd : Int32} {history : List (List Action)} {chunk : Chunk}
    (started : main newfile start dbfd path = some (db, file))
    (run : Run (Step dbfd fun _ _ => True) (startServer db file listenFd) history server)
    (reading : server.reading = some slot) (received : env.read = some chunk)
    : OneReply dbfd server env slot chunk
      ↔ Answerable env (server.world.receive slot chunk) slot := by
  have filled : Filled server.world.db := by
    refine run.stateInvariant (motive := fun server => Filled server.world.db)
      (main_filled started) ?_
    rintro server actions next kept ⟨env, -, result⟩
    exact filled_step kept result
  rw [oneReply_iff_handled reading received]
  exact handleClientFsm_answers_iff filled

/-- On a new file a client can connect and greet, and be the next one to be read from. -/
private theorem greeted_client_run
    : ∃ db file history server,
        main true .granted 3 none = some (db, file)
        ∧ Run (Step 3 fun _ _ => True) (startServer db file 4) history server
        ∧ server.reading = some 0
        ∧ (server.world.clients 0).state = .msg
        ∧ server.world.db.employees = some [] := by
  obtain ⟨file, started, -⟩ := @main_of_opened .granted 3 true none (headerOf 0) (.opened []) rfl
  have empty := (main_new_empty (show StartEnv.granted.employeesAllocated from rfl) started).1
  rw [empty] at started
  obtain ⟨history, server, run, reading, state, sameDb, -⟩ :=
    first_client_reads 3 ⟨headerOf 0, some []⟩ file 4
  exact ⟨_, file, history, server, started, run_of_orderly (fun _ _ _ => trivial) run, reading,
    state, by rw [sameDb]⟩

/-- A greeted client's list request on a new file gets its reply. -/
theorem one_reply_iff_list
    : ∃ db file history server env chunk,
        main true .granted 3 none = some (db, file)
        ∧ Run (Step 3 fun _ _ => True) (startServer db file 4) history server
        ∧ server.reading = some 0
        ∧ env.read = some chunk
        ∧ OneReply 3 server env 0 chunk := by
  obtain ⟨db, file, history, server, started, run, reading, state, employees⟩ :=
    greeted_client_run
  let chunk := (ClientMessage.list (clearedBuffer.take 2)).chunk
  have asked : (server.world.receive 0 chunk).request 0 = .list := by
    rw [World.receive_request, state]
    exact requestOf_msg _ _
  refine ⟨db, file, history, server, clientEnv (some chunk) none, chunk, started, run, reading,
    rfl, (one_reply_iff started run reading rfl).mpr ⟨?_, ?_, ?_, ?_⟩⟩
  · rw [asked]
    decide
  · simp [asked]
  · simp [asked]
  · intro _ missing
    cases employees.symm.trans missing

private theorem nothing_fits : ([] : List UInt8).length ≤ buffSize - protoHeaderSize := by
  decide

/-- A request to delete an employee, which the protocol names. -/
def deleteRequest : Chunk := headed .employeeDelReq 1 [] nothing_fits

/-- A greeted client's request to delete an employee gets no reply. -/
theorem no_reply
    : ∃ db file history server env,
        main true .granted 3 none = some (db, file)
        ∧ Run (Step 3 fun _ _ => True) (startServer db file 4) history server
        ∧ server.reading = some 0
        ∧ env.read = some deleteRequest
        ∧ ¬ OneReply 3 server env 0 deleteRequest := by
  obtain ⟨db, file, history, server, started, run, reading, state, -⟩ := greeted_client_run
  refine ⟨db, file, history, server, clientEnv (some deleteRequest) none, started, run, reading,
    rfl, ?_⟩
  rw [oneReply_iff_handled reading rfl]
  rintro ⟨after, actions, handled, header, entries, sent, -⟩
  have ignored : (server.world.receive 0 deleteRequest).request 0 = .ignored := by
    rw [World.receive_request, state, requestOf, deleteRequest, wireType_headed]
    rfl
  rw [handleClientFsm_ignored _ _ _ _ ignored] at handled
  obtain ⟨-, rfl⟩ := Prod.mk.inj (Except.ok.inj handled)
  cases sent

end LowlevelAcademy.Correctness
