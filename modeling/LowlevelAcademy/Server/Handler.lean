import LowlevelAcademy.Database.Saving
import LowlevelAcademy.Server.Protocol

/-! The protocol state machine that handles one received message, and what it does for each
kind of request.
-/

namespace LowlevelAcademy.Server

open LowlevelAcademy.Foundations
open LowlevelAcademy.Database

/-- The bytes that one successful `read` returns. -/
structure Chunk where
  bytes : List UInt8
  nonempty : bytes ≠ []
  fits : bytes.length ≤ buffSize

/-- What the system calls of one step return: the events `poll` reports (none when it fails),
the descriptor `accept` returns, the data `read` returns (none at the end of a connection or
on failure), the outcome of `realloc`, and how the writes to the database file end.
-/
structure Env where
  poll : Option (Fin (maxClients + 1) → UInt16)
  accept : Int32
  read : Option Chunk
  realloc : Option (Nat → Employee)
  writes : Nat → WriteOutcome

/-- What the server did, in the order it did it. -/
inductive Action where
  | accepted (slot : Slot) (fd : Int32)
  | refused (fd : Int32)
  | disconnected (slot : Slot)
  | handled (slot : Slot) (state : StateE) (buffer : Buffer)
  | added (slot : Slot) (request : List UInt8) (status : Status)
  | sent (slot : Slot) (bytes : List UInt8)
  | saved (slot : Slot) (written : List (List UInt8 × WriteOutcome))
  deriving DecidableEq

/-- What handling a message can change: the client table, the live database and the file. -/
structure World where
  clients : Clients
  db : Db
  file : OpenFile UInt8

/-- The world with a client's state and buffer replaced. -/
def World.setClient (world : World) (slot : Slot) (state : StateE) (buffer : Buffer)
    : World where
  clients := Function.update world.clients slot ⟨(world.clients slot).fd, state, buffer⟩
  db := world.db
  file := world.file

/-- The `STATE_HELLO` part of `handle_client_fsm`, on a buffer with a converted header. -/
def handleHello (world : World) (slot : Slot) (buffer : Buffer) : World × List Action :=
  if buffer.headerType ≠ MsgType.helloReq.code ∨ buffer.headerLength ≠ 1 then
    let (buffer, reply) := fsmReplyHelloError buffer
    (world.setClient slot .hello buffer, [.sent slot reply])
  else
    let buffer := buffer.setHelloProto (ntohs buffer.helloProto)
    if buffer.helloProto ≠ protoVersion then
      let (buffer, reply) := fsmReplyHelloError buffer
      (world.setClient slot .hello buffer, [.sent slot reply])
    else
      let (buffer, reply) := fsmReplyHello buffer
      (world.setClient slot .msg buffer, [.sent slot reply])

/-- The `MSG_EMPLOYEE_ADD_REQ` part of `handle_client_fsm`. The add string is tokenized where
it lies, so the memory behind the client's buffer takes part when the string has no end in
the buffer. A successful add is answered before the file is written.
-/
def handleAdd (env : Env) (dbfd : Int) (world : World) (slot : Slot) (buffer : Buffer)
    : Except Halt (World × List Action) :=
  let world := world.setClient slot .msg buffer
  let memory := world.clients.memoryFrom slot protoHeaderSize
  match addEmployee env.realloc world.db memory with
  | .error halt => .error halt
  | .ok added =>
      let clients := world.clients.storeFrom slot protoHeaderSize added.memory
      let outcome := Action.added slot (cString nul memory) added.status
      match added.status with
      | .error =>
          let (buffer, reply) := fsmReplyAddError (clients slot).buffer
          .ok (World.setClient ⟨clients, added.db, world.file⟩ slot .msg buffer,
            [outcome, .sent slot reply])
      | .success =>
          let (buffer, reply) := fsmReplyAdd (clients slot).buffer
          match outputFile env.writes dbfd world.file added.db with
          | .error halt => .error halt
          | .ok saved =>
              .ok (World.setClient ⟨clients, saved.db, saved.file⟩ slot .msg buffer,
                [outcome, .sent slot reply, .saved slot saved.written])

/-- The `MSG_EMPLOYEE_LIST_REQ` part of `handle_client_fsm`. -/
def handleList (world : World) (slot : Slot) (buffer : Buffer)
    : Except Halt (World × List Action) :=
  match fsmReplyList world.db buffer with
  | .error halt => .error halt
  | .ok (buffer, sent) => .ok (world.setClient slot .msg buffer, sent.map (.sent slot))

/-- `handle_client_fsm` for the client in `slot`. The header is converted in every state; in
states other than `STATE_HELLO` and `STATE_MSG` nothing else happens.
-/
def handleClientFsm (env : Env) (dbfd : Int) (world : World) (slot : Slot)
    : Except Halt (World × List Action) :=
  let client := world.clients slot
  let buffer := client.buffer.swapHeader
  match client.state with
  | .hello => .ok (handleHello world slot buffer)
  | .msg =>
      if buffer.headerType = MsgType.employeeAddReq.code ∧ buffer.headerLength = 1 then
        handleAdd env dbfd world slot buffer
      else if buffer.headerType = MsgType.employeeListReq.code then
        handleList world slot buffer
      else .ok (world.setClient slot .msg buffer, [])
  | state => .ok (world.setClient slot state buffer, [])

-----------------------------------------------------------------------------------------
-- What a message asks for
-----------------------------------------------------------------------------------------

/-- What the handler makes of a message. -/
inductive Request where
  | greeting
  | refused
  | add
  | list
  | ignored
  deriving DecidableEq

/-- The message decodes to the hello that lets a client in. -/
def Greets (message : List UInt8) : Prop :=
  wireType message = MsgType.helloReq.code
  ∧ wireLength message = 1
  ∧ wireProto message = protoVersion

instance (message : List UInt8) : Decidable (Greets message) :=
  inferInstanceAs (Decidable (_ ∧ _))

/-- What a message asks for in a client's state, by the numbers in its bytes. -/
def requestOf (state : StateE) (message : List UInt8) : Request :=
  match state with
  | .hello => if Greets message then .greeting else .refused
  | .msg =>
      if wireType message = MsgType.employeeAddReq.code ∧ wireLength message = 1 then .add
      else if wireType message = MsgType.employeeListReq.code then .list
      else .ignored
  | _ => .ignored

theorem requestOf_greeting {message : List UInt8} (greets : Greets message)
    : requestOf .hello message = .greeting :=
  if_pos greets

theorem requestOf_refused {message : List UInt8} (refuses : ¬ Greets message)
    : requestOf .hello message = .refused :=
  if_neg refuses

/-- When a message makes a request: only `STATE_HELLO` greets or refuses, and only `STATE_MSG`
adds or lists.
-/
def Request.Asked (state : StateE) (message : List UInt8) : Request → Prop
  | .greeting => state = .hello ∧ Greets message
  | .refused => state = .hello ∧ ¬ Greets message
  | .add => state = .msg ∧ wireType message = MsgType.employeeAddReq.code ∧ wireLength message = 1
  | .list => state = .msg ∧ wireType message = MsgType.employeeListReq.code
  | .ignored =>
      state ≠ .hello
      ∧ (state = .msg
        → ¬ (wireType message = MsgType.employeeAddReq.code ∧ wireLength message = 1)
          ∧ wireType message ≠ MsgType.employeeListReq.code)

/-- Every message makes the request it is classified as. -/
theorem requestOf_asked (state : StateE) (message : List UInt8)
    : (requestOf state message).Asked state message := by
  cases state <;> simp only [requestOf]
  case hello => split_ifs with greets <;> simp [Request.Asked, greets]
  case msg => split_ifs with adds lists <;> simp_all [Request.Asked]
  all_goals simp [Request.Asked]

variable (env : Env) (dbfd : Int) (world : World) (slot : Slot)

/-- The message in a client's buffer. -/
abbrev World.message : List UInt8 := (world.clients slot).buffer.toList

/-- What the message in a client's buffer asks for. -/
abbrev World.request : Request :=
  requestOf (world.clients slot).state (world.message slot)

theorem World.request_asked {request : Request} (asked : world.request slot = request)
    : request.Asked (world.clients slot).state (world.message slot) :=
  asked ▸ requestOf_asked _ _

/-- The padding of a reply is what the request had there. -/
theorem replyBytes_congr {left right : Buffer}
    (same : slice 6 2 left.toList = slice 6 2 right.toList)
    (type : MsgType) (length : UInt16)
    : replyBytes left type length = replyBytes right type length := by
  rw [replyBytes, same, replyBytes]

theorem replyBytes_swapHeader (buffer : Buffer) (type : MsgType) (length : UInt16)
    : replyBytes buffer.swapHeader type length = replyBytes buffer type length :=
  replyBytes_congr (by rw [slice, Buffer.swapHeader_drop _ (le_refl 6), slice]) type length

/-- Setting the version of a hello leaves the header and its padding alone. -/
theorem replyBytes_setHelloProto (buffer : Buffer) (proto : UInt16) (type : MsgType)
    (length : UInt16)
    : replyBytes (buffer.setHelloProto proto) type length = replyBytes buffer type length := by
  refine replyBytes_congr ?_ type length
  rw [Buffer.setHelloProto, Buffer.toList_store _ (by simp [buffSize])]
  exact slice_splice_below (by simp [buffSize]) (by decide)

/-- Editing what lies behind the header leaves the header's padding alone. -/
theorem replyBytes_edited (buffer : Buffer) {behind : List UInt8}
    (size : behind.length = buffSize - protoHeaderSize) (type : MsgType) (length : UInt16)
    : replyBytes (fit buffSize nul (buffer.swapHeader.toList.take protoHeaderSize ++ behind))
        type length
      = replyBytes buffer type length := by
  rw [← replyBytes_swapHeader buffer]
  refine replyBytes_congr ?_ type length
  have front : (buffer.swapHeader.toList.take protoHeaderSize).length = protoHeaderSize := by
    simp [buffSize, protoHeaderSize]
  rw [fit_toList_of_length (by rw [List.length_append, front, size]; decide), slice,
    List.drop_append_of_le_length (by rw [front]; decide),
    List.take_append_of_le_length (by rw [List.length_drop, front]; decide), List.drop_take, slice,
    List.take_take]
  rfl

theorem Buffer.helloProto_setHelloProto (buffer : Buffer) (proto : UInt16)
    : (buffer.setHelloProto proto).helloProto = proto := by
  have front : (buffer.toList.take 8).length = 8 := by simp [buffSize]
  rw [Buffer.helloProto, Buffer.toList_setHelloProto, List.drop_left' front,
    load16_leBytes_append]

-----------------------------------------------------------------------------------------
-- What the handler does for each request
-----------------------------------------------------------------------------------------

/-- The client's buffer after a greeting was answered in it. -/
def greetedBuffer (buffer : Buffer) : Buffer :=
  let buffer := buffer.swapHeader
  (fsmReplyHello (buffer.setHelloProto (ntohs buffer.helloProto))).1

/-- Behind the hello the buffer stays as it was. -/
theorem greetedBuffer_drop (buffer : Buffer)
    : (greetedBuffer buffer).toList.drop helloSize = buffer.toList.drop helloSize := by
  let versioned := buffer.swapHeader.setHelloProto (ntohs buffer.swapHeader.helloProto)
  have built : (greetedBuffer buffer).toList
      = wireHeader MsgType.helloResp.code 1 ++ slice 6 2 versioned.toList
        ++ beBytes 2 protoVersion.toNat ++ versioned.toList.drop helloSize :=
    versioned.toList_hello .helloResp
  have size : (wireHeader MsgType.helloResp.code 1 ++ slice 6 2 versioned.toList
      ++ beBytes 2 protoVersion.toNat).length = helloSize := by
    simp [buffSize]
  have front : (buffer.swapHeader.toList.take 8).length = 8 := by simp [buffSize]
  have behind : versioned.toList.drop helloSize = buffer.swapHeader.toList.drop helloSize := by
    rw [Buffer.toList_setHelloProto, ← List.append_assoc]
    refine List.drop_left' ?_
    rw [List.length_append, front, leBytes_length]
  rw [built, List.drop_left' size, behind, Buffer.swapHeader_drop _ (by decide)]

/-- A greeting is answered with the server's version and moves the client to `STATE_MSG`. -/
theorem handleClientFsm_greeting_buffer (asked : world.request slot = .greeting)
    : handleClientFsm env dbfd world slot
      = .ok (world.setClient slot .msg (greetedBuffer (world.clients slot).buffer),
          [.sent slot (helloBytes (world.clients slot).buffer)]) := by
  obtain ⟨state, type, length, proto⟩ := world.request_asked slot asked
  let buffer := (world.clients slot).buffer.swapHeader
  have known : ¬ (buffer.headerType ≠ MsgType.helloReq.code ∨ buffer.headerLength ≠ 1) := by
    rw [Buffer.swapHeader_headerType, Buffer.swapHeader_headerLength]
    simp [type, length]
  have version : ¬ (buffer.setHelloProto (ntohs buffer.helloProto)).helloProto ≠ protoVersion := by
    rw [Buffer.helloProto_setHelloProto, Buffer.swapHeader_helloProto, not_not]
    exact proto
  have reply : helloBytes (buffer.setHelloProto (ntohs buffer.helloProto))
      = helloBytes (world.clients slot).buffer := by
    rw [helloBytes, replyBytes_setHelloProto, replyBytes_swapHeader, helloBytes]
  simp only [handleClientFsm, state, handleHello]
  rw [if_neg known, if_neg version, fsmReplyHello_sent, reply]
  rfl

theorem handleClientFsm_greeting (asked : world.request slot = .greeting)
    : ∃ buffer,
        handleClientFsm env dbfd world slot
          = .ok (world.setClient slot .msg buffer,
              [.sent slot (helloBytes (world.clients slot).buffer)]) :=
  ⟨_, handleClientFsm_greeting_buffer env dbfd world slot asked⟩

/-- Anything else in `STATE_HELLO` is answered with an error and changes only the buffer. -/
theorem handleClientFsm_refused (asked : world.request slot = .refused)
    : ∃ buffer,
        handleClientFsm env dbfd world slot
          = .ok (world.setClient slot .hello buffer,
              [.sent slot (replyBytes (world.clients slot).buffer .error 0)]) := by
  obtain ⟨state, notGreeting⟩ := world.request_asked slot asked
  let buffer := (world.clients slot).buffer.swapHeader
  simp only [handleClientFsm, state, handleHello]
  by_cases unknown : buffer.headerType ≠ MsgType.helloReq.code ∨ buffer.headerLength ≠ 1
  · refine ⟨(fsmReplyHelloError buffer).1, ?_⟩
    rw [if_pos unknown, fsmReplyHelloError, replyHeader_sent, replyBytes_swapHeader]
  · have version : (buffer.setHelloProto (ntohs buffer.helloProto)).helloProto
        ≠ protoVersion := by
      rw [Buffer.helloProto_setHelloProto, Buffer.swapHeader_helloProto]
      intro proto
      rw [Buffer.swapHeader_headerType, Buffer.swapHeader_headerLength] at unknown
      simp only [ne_eq, not_or, not_not] at unknown
      exact notGreeting ⟨unknown.1, unknown.2, proto⟩
    refine ⟨(fsmReplyHelloError (buffer.setHelloProto (ntohs buffer.helloProto))).1, ?_⟩
    rw [if_neg unknown, if_pos version, fsmReplyHelloError, replyHeader_sent,
      replyBytes_setHelloProto, replyBytes_swapHeader]

/-- A message that no state handles changes only the header in the buffer. -/
theorem handleClientFsm_ignored (asked : world.request slot = .ignored)
    : handleClientFsm env dbfd world slot
      = .ok (world.setClient slot (world.clients slot).state
          (world.clients slot).buffer.swapHeader, []) := by
  obtain ⟨notHello, unknown⟩ := world.request_asked slot asked
  cases state : (world.clients slot).state <;> simp only [handleClientFsm, state]
  case hello => exact absurd state notHello
  case msg =>
    obtain ⟨notAdd, notList⟩ := unknown state
    rw [Buffer.swapHeader_headerType, Buffer.swapHeader_headerLength, if_neg notAdd,
      if_neg notList]

/-- A list request is handled as one. -/
theorem handleClientFsm_list_eq (asked : world.request slot = .list)
    : handleClientFsm env dbfd world slot
      = handleList world slot (world.clients slot).buffer.swapHeader := by
  obtain ⟨state, type⟩ := world.request_asked slot asked
  let buffer := (world.clients slot).buffer.swapHeader
  have notAdd : ¬ (buffer.headerType = MsgType.employeeAddReq.code ∧ buffer.headerLength = 1) := by
    rw [Buffer.swapHeader_headerType, type]
    rintro ⟨impossible, -⟩
    exact absurd impossible (by decide)
  have isList : buffer.headerType = MsgType.employeeListReq.code := by
    rw [Buffer.swapHeader_headerType, type]
  simp only [handleClientFsm, state]
  rw [if_neg notAdd, if_pos isList]

/-- A list request on a held database is answered with all its records, in order. -/
theorem handleClientFsm_list {records : List Employee} (asked : world.request slot = .list)
    (holds : world.db.Holds records)
    : ∃ buffer,
        handleClientFsm env dbfd world slot
          = .ok (world.setClient slot .msg buffer,
              (replyBytes (world.clients slot).buffer .employeeListResp world.db.header.count
                :: records.map listEntry).map (.sent slot)) := by
  obtain ⟨last, reply⟩ := fsmReplyList_ok holds (world.clients slot).buffer.swapHeader
  refine ⟨last, ?_⟩
  rw [handleClientFsm_list_eq env dbfd world slot asked, handleList, reply,
    replyBytes_swapHeader]

/-- The add string of a message in its own buffer. -/
abbrev addString (message : List UInt8) : List UInt8 := message.drop protoHeaderSize

/-- The add string as C code reads it: up to the first terminator, which may lie behind the
client's buffer.
-/
abbrev World.addRequest : List UInt8 :=
  cString nul (addString (world.message slot) ++ world.clients.following slot)

/-- How an add request ends once its string is scanned: it is answered, and after a success
the database is saved.
-/
def finishAdd (buffer : Buffer) (added : Added) : Except Halt (World × List Action) :=
  let outcome := Action.added slot (world.addRequest slot) added.status
  let reply := replyBytes (world.clients slot).buffer
  match added.status with
  | .error =>
      .ok (World.setClient ⟨world.clients, added.db, world.file⟩ slot .msg buffer,
        [outcome, .sent slot (reply .error 0)])
  | .success =>
      match outputFile env.writes dbfd world.file added.db with
      | .error halt => .error halt
      | .ok saved =>
          .ok (World.setClient ⟨world.clients, saved.db, saved.file⟩ slot .msg buffer,
            [outcome, .sent slot (reply .employeeAddResp 0), .saved slot saved.written])

/-- The memory that is tokenized: the add string in the buffer and the slots behind it. -/
theorem memoryFrom_swapHeader
    : (world.setClient slot .msg (world.clients slot).buffer.swapHeader).clients.memoryFrom slot
        protoHeaderSize
      = addString (world.message slot) ++ world.clients.following slot := by
  simp only [Clients.memoryFrom, World.setClient, Clients.following_update,
    Function.update_self]
  rw [Buffer.swapHeader_drop _ (by decide)]

/-- An add request is handled as one. -/
theorem handleClientFsm_add_eq (asked : world.request slot = .add)
    : handleClientFsm env dbfd world slot
      = handleAdd env dbfd world slot (world.clients slot).buffer.swapHeader := by
  obtain ⟨state, type, length⟩ := world.request_asked slot asked
  let buffer := (world.clients slot).buffer.swapHeader
  have isAdd : buffer.headerType = MsgType.employeeAddReq.code ∧ buffer.headerLength = 1 := by
    rw [Buffer.swapHeader_headerType, Buffer.swapHeader_headerLength]
    exact ⟨type, length⟩
  simp only [handleClientFsm, state]
  rw [if_pos isAdd]

/-- The client's buffer after an add request was handled: the edited add string behind the
converted header, with the header of the reply stored over it.
-/
def addedBuffer (buffer : Buffer) (added : Added) : Buffer :=
  let edited := fit buffSize nul (buffer.swapHeader.toList.take protoHeaderSize ++ added.memory)
  match added.status with
  | .error => (fsmReplyAddError edited).1
  | .success => (fsmReplyAdd edited).1

/-- An add string that ends inside the client's buffer is scanned there, and only this client's
slot is changed.
-/
theorem handleClientFsm_add_buffer (asked : world.request slot = .add)
    (ends : EndsInside (addString (world.message slot)))
    : handleClientFsm env dbfd world slot
      = match addEmployee env.realloc world.db (addString (world.message slot)) with
        | .error halt => .error halt
        | .ok added =>
            finishAdd env dbfd world slot (addedBuffer (world.clients slot).buffer added)
              added := by
  have longer := addEmployee_append (addEmployee_endsInside env.realloc world.db ends)
    (world.clients.following slot)
  have sameDb (buffer : Buffer) : (world.setClient slot .msg buffer).db = world.db := rfl
  rw [handleClientFsm_add_eq env dbfd world slot asked, handleAdd, memoryFrom_swapHeader, sameDb,
    longer]
  cases result : addEmployee env.realloc world.db (addString (world.message slot)) with
  | error halt => rfl
  | ok added =>
      have size : added.memory.length = buffSize - protoHeaderSize := by
        rw [addEmployee_length result]
        simp
      -- the edited string lies in the client's own buffer, so only that buffer changes
      have stored := Clients.storeFrom_own
        (world.setClient slot .msg (world.clients slot).buffer.swapHeader).clients slot size
      simp only [World.setClient, Clients.following_update, Function.update_self,
        Function.update_idem] at stored
      have padding := replyBytes_edited (world.clients slot).buffer size
      simp only [Except.map, World.setClient, stored, Function.update_self, Function.update_idem,
        finishAdd, addedBuffer, fsmReplyAddError, fsmReplyAdd, replyHeader_sent]
      cases status : added.status with
      | error => simp only [padding]
      | success =>
          cases outputFile env.writes dbfd world.file added.db with
          | error halt => rfl
          | ok saved => simp only [padding]

/-- The outcome of such a request, whatever it leaves in the client's buffer. -/
theorem handleClientFsm_add (asked : world.request slot = .add)
    (ends : EndsInside (addString (world.message slot)))
    : ∃ buffer,
        handleClientFsm env dbfd world slot
          = match addEmployee env.realloc world.db (addString (world.message slot)) with
            | .error halt => .error halt
            | .ok added => finishAdd env dbfd world slot buffer added := by
  rw [handleClientFsm_add_buffer env dbfd world slot asked ends]
  cases addEmployee env.realloc world.db (addString (world.message slot)) with
  | error halt => exact ⟨clearedBuffer, rfl⟩
  | ok added => exact ⟨_, rfl⟩

end LowlevelAcademy.Server
