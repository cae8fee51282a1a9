import LowlevelAcademy.Server.Requests
import LowlevelAcademy.Server.Steps

/-! What a handled message does to everything but the clients' buffers, as a function of the
request alone: which parts of a read decide it, and which bytes of a buffer never matter.
-/

namespace LowlevelAcademy.Server

open LowlevelAcademy.Foundations
open LowlevelAcademy.Database

/-- The result of handling a message, without the buffers: the client's state, the database
and the file, the messages written to the client and the writes to the file.
-/
structure Response where
  state : StateE
  db : Db
  file : OpenFile UInt8
  replies : List (List UInt8)
  written : List (List UInt8 × WriteOutcome)

/-- The messages that were written to clients, in order. -/
def repliesOf (actions : List Action) : List (List UInt8) :=
  actions.filterMap fun
    | .sent _ bytes => some bytes
    | _ => none

/-- The writes to the database file, in order. -/
def writesOf (actions : List Action) : List (List UInt8 × WriteOutcome) :=
  actions.flatMap fun
    | .saved _ written => written
    | _ => []

@[simp] theorem repliesOf_sent (slot : Slot) (sent : List (List UInt8))
    : repliesOf (sent.map (.sent slot)) = sent := by
  simp [repliesOf, List.filterMap_map]

@[simp] theorem writesOf_sent (slot : Slot) (sent : List (List UInt8))
    : writesOf (sent.map (.sent slot)) = [] := by
  simp [writesOf, List.flatMap_map]

/-- The response that a handled message of a slot amounts to. -/
def observe (slot : Slot) (result : World × List Action) : Response where
  state := (result.1.clients slot).state
  db := result.1.db
  file := result.1.file
  replies := repliesOf result.2
  written := writesOf result.2

/-- The response to a request. The reply is built in the buffer of the request, whose padding
it keeps; `string` is the add string.
-/
def respond (env : Env) (dbfd : Int) (state : StateE) (db : Db) (file : OpenFile UInt8)
    (request : Request) (string padding : List UInt8)
    : Except Halt Response :=
  match request with
  | .greeting =>
      .ok ⟨.msg, db, file,
        [wireHeader MsgType.helloResp.code 1 ++ padding ++ beBytes 2 protoVersion.toNat], []⟩
  | .refused => .ok ⟨.hello, db, file, [wireHeader MsgType.error.code 0 ++ padding], []⟩
  | .ignored => .ok ⟨state, db, file, [], []⟩
  | .list =>
      (listEntries db).map fun entries =>
        ⟨.msg, db, file,
          (wireHeader MsgType.employeeListResp.code db.header.count ++ padding) :: entries, []⟩
  | .add =>
      match addEmployee env.realloc db string with
      | .error halt => .error halt
      | .ok added =>
          match added.status with
          | .error =>
              .ok ⟨.msg, added.db, file, [wireHeader MsgType.error.code 0 ++ padding], []⟩
          | .success =>
              (outputFile env.writes dbfd file added.db).map fun saved =>
                ⟨.msg, saved.db, saved.file,
                  [wireHeader MsgType.employeeAddResp.code 0 ++ padding], saved.written⟩

variable {env : Env} {dbfd : Int} {world : World} {slot : Slot}

/-- The bytes that a message has as padding in its header. -/
abbrev paddingOf (message : List UInt8) : List UInt8 := slice 6 2 message

/-- Handling a message gives the response to its request, as long as an add string ends inside
the buffer.
-/
theorem handleClientFsm_respond
    (ends : world.request slot = .add → EndsInside (addString (world.message slot)))
    : (handleClientFsm env dbfd world slot).map (observe slot)
      = respond env dbfd (world.clients slot).state world.db world.file (world.request slot)
          (addString (world.message slot)) (paddingOf (world.message slot)) := by
  cases asked : world.request slot with
  | greeting =>
      obtain ⟨buffer, equation⟩ := handleClientFsm_greeting env dbfd world slot asked
      simp only [equation, Except.map, observe, World.setClient, Function.update_self]
      rfl
  | refused =>
      obtain ⟨buffer, equation⟩ := handleClientFsm_refused env dbfd world slot asked
      simp only [equation, Except.map, observe, World.setClient, Function.update_self]
      rfl
  | ignored =>
      simp only [handleClientFsm_ignored env dbfd world slot asked, Except.map, observe,
        World.setClient, Function.update_self]
      rfl
  | list =>
      have sent := fsmReplyList_sent world.db (world.clients slot).buffer.swapHeader
      rw [replyBytes_swapHeader] at sent
      rw [handleClientFsm_list_eq env dbfd world slot asked, handleList, respond]
      cases reply : fsmReplyList world.db (world.clients slot).buffer.swapHeader with
      | error halt =>
          cases entries : listEntries world.db <;> simp_all [Except.map]
      | ok result =>
          cases entries : listEntries world.db with
          | error halt => simp_all [Except.map]
          | ok sentEntries =>
              obtain ⟨last, messages⟩ := result
              obtain rfl : messages = _ :=
                Except.ok.inj (by simpa only [reply, entries, Except.map] using sent)
              simp only [Except.map, observe, World.setClient, Function.update_self,
                repliesOf_sent, writesOf_sent]
              rfl
  | add =>
      obtain ⟨buffer, equation⟩ := handleClientFsm_add env dbfd world slot asked (ends asked)
      rw [equation, respond]
      cases addEmployee env.realloc world.db (addString (world.message slot)) with
      | error halt => rfl
      | ok added =>
          obtain ⟨_ | _, db, memory⟩ := added
          · simp only [finishAdd]
            cases outputFile env.writes dbfd world.file db with
            | error halt => rfl
            | ok saved =>
                simp only [Except.map, observe, World.setClient, Function.update_self]
                simp [repliesOf, writesOf]
                rfl
          · simp only [finishAdd, Except.map, observe, World.setClient, Function.update_self]
            rfl

-----------------------------------------------------------------------------------------
-- Reads that decide their request
-----------------------------------------------------------------------------------------

/-- A read contains every byte that the handler looks at when a client in this state sends it:
the type; for a type that the state handles, the length; for a hello of the right length, the
version; and for an add request, an add string that ends inside the read.
-/
def Complete (state : StateE) (bytes : List UInt8) : Prop :=
  match state with
  | .hello =>
      4 ≤ bytes.length
      ∧ (wireType bytes = MsgType.helloReq.code
        → 6 ≤ bytes.length ∧ (wireLength bytes = 1 → 10 ≤ bytes.length))
  | .msg =>
      4 ≤ bytes.length
      ∧ (wireType bytes = MsgType.employeeAddReq.code
        → 6 ≤ bytes.length ∧ (wireLength bytes = 1 → EndsInside (addString bytes)))
  | _ => True

instance (state : StateE) (bytes : List UInt8) : Decidable (Complete state bytes) := by
  cases state <;> simp only [Complete] <;> infer_instance

variable {state : StateE} {bytes : List UInt8}

/-- A complete read asks for the same, whatever the buffer holds behind it. -/
theorem requestOf_complete (complete : Complete state bytes) (rest : List UInt8)
    : requestOf state (bytes ++ rest) = requestOf state bytes := by
  cases state with
  | hello =>
      obtain ⟨four, more⟩ := complete
      have same : Greets (bytes ++ rest) ↔ Greets bytes := by
        rw [Greets, Greets, wireType_append four]
        refine and_congr_right fun type => ?_
        obtain ⟨six, ten⟩ := more type
        rw [wireLength_append six]
        exact and_congr_right fun length => by rw [wireProto_append (ten length)]
      simp only [requestOf, same]
  | msg =>
      obtain ⟨four, more⟩ := complete
      simp only [requestOf, wireType_append four]
      by_cases type : wireType bytes = MsgType.employeeAddReq.code
      · simp only [type, true_and, wireLength_append (more type).1]
      · simp only [type, false_and, if_false]
  | _ => rfl

/-- The add string of a complete add request starts with one that ends inside the read. -/
theorem addString_complete (complete : Complete state bytes)
    (asked : requestOf state bytes = .add) (rest : List UInt8)
    : EndsInside (addString bytes) ∧ addString (bytes ++ rest) = addString bytes ++ rest := by
  obtain ⟨rfl, type, length⟩ := asked ▸ requestOf_asked state bytes
  have ends := (complete.2 type).2 length
  refine ⟨ends, ?_⟩
  by_cases short : bytes.length < protoHeaderSize
  · -- an empty add string does not end inside the read
    rw [addString, List.drop_eq_nil_of_le (by omega)] at ends
    exact absurd ends (by decide)
  · exact List.drop_append_of_le_length (by omega)

/-- What follows an add string that ends inside its memory does not change the response. -/
theorem respond_add_append (env : Env) (dbfd : Int) (state : StateE) (db : Db)
    (file : OpenFile UInt8) {string : List UInt8} (ends : EndsInside string)
    (rest padding : List UInt8)
    : respond env dbfd state db file .add (string ++ rest) padding
      = respond env dbfd state db file .add string padding := by
  simp only [respond, addEmployee_append (addEmployee_endsInside env.realloc db ends) rest]
  cases addEmployee env.realloc db string <;> rfl

/-- The response to a complete read is decided by its own bytes and the padding. -/
theorem respond_complete (env : Env) (dbfd : Int) (db : Db) (file : OpenFile UInt8)
    (complete : Complete state bytes) (rest padding : List UInt8)
    : respond env dbfd state db file (requestOf state (bytes ++ rest))
        (addString (bytes ++ rest)) padding
      = respond env dbfd state db file (requestOf state bytes) (addString bytes) padding := by
  rw [requestOf_complete complete]
  cases asked : requestOf state bytes with
  | add =>
      obtain ⟨ends, split⟩ := addString_complete complete asked rest
      rw [split, respond_add_append env dbfd state db file ends]
  | greeting | refused | ignored | list => rfl

/-- The response that serving a client amounts to. -/
def served (slot : Slot) (result : World × Nat × List Action) : Response :=
  observe slot (result.1, result.2.2)

/-- Serving a client that sent data is responding to what its buffer then holds. -/
theorem serveClient_respond {env : Env} {dbfd : Nat} {world : World} {slot : Slot}
    {chunk : Chunk} (nfds : Nat) (received : env.read = some chunk)
    (ends
      : (world.receive slot chunk).request slot = .add
        → EndsInside (addString ((world.receive slot chunk).message slot)))
    : (serveClient env dbfd world nfds slot).map (served slot)
      = respond env dbfd (world.clients slot).state world.db world.file
          ((world.receive slot chunk).request slot)
          (addString ((world.receive slot chunk).message slot))
          (paddingOf ((world.receive slot chunk).message slot)) := by
  have responded := @handleClientFsm_respond env dbfd _ slot ends
  rw [World.receive_state] at responded
  refine Eq.trans ?_ responded
  simp only [serveClient, received]
  cases handleClientFsm env dbfd (world.receive slot chunk) slot <;> rfl

/-- Serving a client whose read starts with a complete one is responding to that start. -/
theorem serveClient_complete {env : Env} {dbfd : Nat} {world : World} {slot : Slot}
    {chunk : Chunk} {trailing : List UInt8} (nfds : Nat) (received : env.read = some chunk)
    (starts : chunk.bytes = bytes ++ trailing)
    (complete : Complete (world.clients slot).state bytes)
    : (serveClient env dbfd world nfds slot).map (served slot)
      = respond env dbfd (world.clients slot).state world.db world.file
          (requestOf (world.clients slot).state bytes) (addString bytes)
          (paddingOf ((world.receive slot chunk).message slot)) := by
  have whole : (world.receive slot chunk).message slot
      = bytes ++ (trailing ++ (world.message slot).drop chunk.bytes.length) := by
    rw [World.receive_message, ← List.append_assoc, ← starts]
  have request : (world.receive slot chunk).request slot
      = requestOf (world.clients slot).state
          (bytes ++ (trailing ++ (world.message slot).drop chunk.bytes.length)) := by
    rw [World.request, whole, World.receive_state]
  rw [serveClient_respond nfds received, request, whole,
    respond_complete env dbfd _ _ complete]
  intro asked
  rw [request, requestOf_complete complete] at asked
  obtain ⟨ends, split⟩ := addString_complete complete asked
    (trailing ++ (world.message slot).drop chunk.bytes.length)
  rw [whole, split]
  exact ends.append _

/-- The data of an add request ends inside its 1024 bytes. -/
def ClientMessage.Ended : ClientMessage → Prop
  | .hello _ _ | .list _ => True
  | .add _ data => EndsInside data.toList

/-- A whole message is complete in every state. -/
theorem ClientMessage.complete {message : ClientMessage} (ended : message.Ended)
    (state : StateE)
    : Complete state message.bytes := by
  have type := message.wireType_bytes []
  have length := message.wireLength_bytes []
  have size := message.bytes_length
  rw [List.append_nil] at type length
  cases state with
  | hello =>
      refine ⟨?_, fun isHello => ?_⟩
      · rw [size]
        exact le_trans (by decide) message.size_bounds.1
      · rw [type] at isHello
        cases message with
        | hello => simp [size, ClientMessage.size]
        | list | add => simp [ClientMessage.msgType, MsgType.code] at isHello
  | msg =>
      refine ⟨?_, fun isAdd => ?_⟩
      · rw [size]
        exact le_trans (by decide) message.size_bounds.1
      · rw [type] at isAdd
        cases message with
        | hello | list => simp [ClientMessage.msgType, MsgType.code] at isAdd
        | add padding data =>
            have string := addString_add padding data []
            rw [List.append_nil, List.append_nil] at string
            refine ⟨by simp [size, ClientMessage.size], fun _ => ?_⟩
            rw [string]
            exact ended
  | _ => trivial

-----------------------------------------------------------------------------------------
-- The fields of replies
-----------------------------------------------------------------------------------------

/-- The fields of a reply's messages: type, length and body of the first one, without the two
bytes of padding, and the entries that follow it.
-/
def replyFields : List (List UInt8) → List (List UInt8)
  | [] => []
  | header :: entries => (header.take 6 ++ header.drop protoHeaderSize) :: entries

/-- The effect of a request: the client's next state, the next database, the fields of the
reply and the writes to the file.
-/
structure Effect where
  state : StateE
  db : Db
  fields : List (List UInt8)
  written : List (List UInt8 × WriteOutcome)

def Response.effect (response : Response) : Effect where
  state := response.state
  db := response.db
  fields := replyFields response.replies
  written := response.written

/-- The fields of a reply do not contain its padding. -/
theorem replyFields_header {padding : List UInt8} (size : padding.length = 2) (type : UInt32)
    (length : UInt16) (body : List UInt8) (entries : List (List UInt8))
    : replyFields ((wireHeader type length ++ padding ++ body) :: entries)
      = (wireHeader type length ++ body) :: entries := by
  have front : (wireHeader type length ++ padding).length = protoHeaderSize := by simp [size]
  rw [replyFields, List.drop_left' front, List.append_assoc,
    List.take_left' (wireHeader_length type length)]

/-- Neither the padding nor the contents of the file change the effect of a request. -/
theorem respond_effect (env : Env) (dbfd : Int) (state : StateE) (db : Db)
    (file other : OpenFile UInt8) (request : Request) (string : List UInt8)
    {padding padding' : List UInt8} (size : padding.length = 2) (size' : padding'.length = 2)
    : (respond env dbfd state db file request string padding).map Response.effect
      = (respond env dbfd state db other request string padding').map Response.effect := by
  have bare (type : UInt32) (length : UInt16) (entries : List (List UInt8))
      : replyFields ((wireHeader type length ++ padding) :: entries)
        = replyFields ((wireHeader type length ++ padding') :: entries) := by
    have first := replyFields_header size type length [] entries
    have second := replyFields_header size' type length [] entries
    simp only [List.append_nil] at first second
    rw [first, second]
  cases request with
  | greeting =>
      simp only [respond, Except.map, Response.effect, replyFields_header size,
        replyFields_header size']
  | refused => simp only [respond, Except.map, Response.effect, bare]
  | ignored => rfl
  | list =>
      simp only [respond]
      cases listEntries db with
      | error halt => rfl
      | ok entries => simp only [Except.map, Response.effect, bare]
  | add =>
      simp only [respond]
      cases addEmployee env.realloc db string with
      | error halt => rfl
      | ok added =>
          obtain ⟨_ | _, db, memory⟩ := added
          · have same := outputFile_congr env.writes dbfd file other db
            simp only
            cases first : outputFile env.writes dbfd file db <;>
              cases second : outputFile env.writes dbfd other db <;>
              simp_all [Except.map, Response.effect]
          · simp only [Except.map, Response.effect, bare]

/-- The padding does not change what is saved. -/
theorem respond_file (env : Env) (dbfd : Int) (state : StateE) (db : Db)
    (file : OpenFile UInt8) (request : Request) (string padding padding' : List UInt8)
    : (respond env dbfd state db file request string padding).map Response.file
      = (respond env dbfd state db file request string padding').map Response.file := by
  cases request with
  | greeting | refused | ignored => rfl
  | list =>
      simp only [respond]
      cases listEntries db <;> rfl
  | add =>
      simp only [respond]
      cases addEmployee env.realloc db string with
      | error halt => rfl
      | ok added =>
          obtain ⟨_ | _, db, memory⟩ := added
          · simp only
            cases outputFile env.writes dbfd file db <;> rfl
          · rfl

end LowlevelAcademy.Server
