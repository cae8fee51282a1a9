import LowlevelAcademy.Client.Listing
import LowlevelAcademy.Network.System

/-! One request of a client and its reply: what the server's handler does with each of the three
requests, in the buffer that a client's connection has by then.
-/

namespace LowlevelAcademy.Network

open LowlevelAcademy.Foundations
open LowlevelAcademy.Database
open LowlevelAcademy.Server
open LowlevelAcademy.Client

/-- The message that a call writes. -/
def message : Routine → ClientMessage
  | .sendHello => helloMessage
  | .sendEmployee employeeStr => addMessage employeeStr
  | .listEmployees => listMessage

theorem request_bytes (routine : Routine) : routine.request = (message routine).bytes := by
  cases routine with
  | sendHello => exact helloRequest_holds.written
  | sendEmployee employeeStr => exact (addRequest_holds employeeStr).written
  | listEmployees => exact listRequest_holds.written

/-- The add string that a request carries: the argument, cut to the data's size. -/
def requestText (employeeStr : List UInt8) : List UInt8 := (cString nul employeeStr).take 1024

theorem nul_not_mem_requestText (employeeStr : List UInt8) : nul ∉ requestText employeeStr :=
  fun member => nul_not_mem_cString nul employeeStr (List.mem_of_mem_take member)

/-- The header of a list reply announces as many records as there are. -/
structure ListHeader (records : List Employee) (header : List UInt8) : Prop where
  size : header.length = protoHeaderSize
  type : wireType header = MsgType.employeeListResp.code
  count : (wireLength header).toNat = records.length

/-- Behind a hello the buffer is still clear. -/
def ClearBehindHello (buffer : Buffer) : Prop :=
  buffer.toList.drop helloSize = List.replicate (buffSize - helloSize) nul

theorem clearBehindHello_cleared : ClearBehindHello clearedBuffer := by
  rw [ClearBehindHello, clearedBuffer_toList, List.drop_replicate]

variable {env : Env} {dbfd : Nat} {world after : World} {slot : Slot} {chunk : Chunk}
variable {later : List Action} {records : List Employee} {employeeStr : List UInt8}

/-- A request lies at the start of the buffer that it was received in. -/
theorem receive_routine {routine : Routine} (whole : chunk.bytes = routine.request)
    : (world.receive slot chunk).message slot
      = (message routine).bytes ++ (world.message slot).drop (message routine).size := by
  rw [World.receive_message, whole, request_bytes, ClientMessage.bytes_length]

/-- The header of a reply is no error unless its type is, and has eight bytes. -/
theorem replyBytes_report (buffer : Buffer) (type : MsgType) (length : UInt16) (rest : List UInt8)
    : (StartsWithError (replyBytes buffer type length ++ rest) ↔ type.code = MsgType.error.code)
      ∧ (replyBytes buffer type length).length = protoHeaderSize := by
  have size : (replyBytes buffer type length).length = protoHeaderSize := by
    simp [replyBytes, buffSize]
  have enough : 4 ≤ (replyBytes buffer type length ++ rest).length := by
    rw [List.length_append, size]
    exact Nat.le_add_right_of_le (by decide)
  have decoded : wireType (replyBytes buffer type length ++ rest) = type.code := by
    rw [replyBytes, List.append_assoc, wireType_wireHeader]
  refine ⟨?_, size⟩
  rw [← decoded, wireType_error_iff enough, StartsWithError, List.prefix_iff_eq_take]
  exact eq_comm

/-- The hello of a client in `STATE_HELLO` lets it in. -/
theorem hello_exchange (state : (world.clients slot).state = .hello)
    (whole : chunk.bytes = Routine.sendHello.request)
    : ∃ buffer reply,
        handleClientFsm env dbfd (world.receive slot chunk) slot
          = .ok (world.setClient slot .msg buffer, [.sent slot reply])
        ∧ (ClearBehindHello (world.clients slot).buffer → ClearBehindHello buffer)
        ∧ ¬ StartsWithError reply
        ∧ reply.length = helloSize := by
  let received := world.receive slot chunk
  have content : received.message slot
      = (message .sendHello).bytes ++ (world.message slot).drop (message .sendHello).size :=
    receive_routine whole
  have asked : received.request slot = .greeting := by
    rw [World.request, World.receive_state, state, content]
    exact requestOf_greeting ((greets_message _ _).mpr ⟨_, rfl⟩)
  have handled := handleClientFsm_greeting_buffer env dbfd received slot asked
  rw [World.receive_setClient] at handled
  obtain ⟨report, size⟩ :=
    replyBytes_report (received.clients slot).buffer .helloResp 1 (beBytes 2 protoVersion.toNat)
  refine ⟨_, _, handled, fun clear => ?_, ?_, ?_⟩
  · have behind : (message .sendHello).bytes.length = helloSize := ClientMessage.bytes_length _
    rw [ClearBehindHello, greetedBuffer_drop, ← clear]
    change (received.message slot).drop helloSize = _
    rw [content, List.drop_left' behind]
    rfl
  · rw [helloBytes, report]
    decide
  · rw [helloBytes, List.length_append, size, beBytes_length]

/-- Where the string of an add request lies when it is received behind a hello: in the data of
the request, with zeros behind.
-/
theorem addString_received (clear : ClearBehindHello (world.clients slot).buffer)
    (whole : chunk.bytes = (Routine.sendEmployee employeeStr).request)
    : ∃ rest,
        addString ((world.receive slot chunk).message slot)
        = requestText employeeStr ++ nul :: rest := by
  have behind : (world.message slot).drop (message (.sendEmployee employeeStr)).size
      = List.replicate 3064 nul := by
    have more := congrArg (List.drop 1022) clear
    rw [List.drop_drop, List.drop_replicate] at more
    exact more
  have short : ((cString nul employeeStr).take 1024).length ≤ 1024 := by simp
  rw [receive_routine whole, behind]
  change ∃ rest, addString ((ClientMessage.add noPadding _).bytes ++ _) = _
  rw [addString_add, strncpy, fit_toList_of_le short, List.append_assoc]
  refine ⟨List.replicate (1024 - (requestText employeeStr).length) nul ++ List.replicate 3063 nul,
    ?_⟩
  rw [List.replicate_append_replicate, List.replicate_append_replicate, ← List.replicate_succ]
  congr 2

/-- The add request of a client in `STATE_MSG`: an acceptable string is stored and answered with
success, another one is answered with an error.
-/
theorem add_exchange (state : (world.clients slot).state = .msg)
    (clear : ClearBehindHello (world.clients slot).buffer)
    (whole : chunk.bytes = (Routine.sendEmployee employeeStr).request)
    (holds : world.db.Holds records)
    (handled : handleClientFsm env dbfd (world.receive slot chunk) slot = .ok (after, later))
    : ∃ buffer reply,
        after.clients = (world.setClient slot .msg buffer).clients
        ∧ repliesOf later = [reply]
        ∧ reply.length = protoHeaderSize
        ∧ ((acceptable (requestText employeeStr)
              ∧ acceptedRequests later = [requestText employeeStr]
              ∧ ¬ StartsWithError reply
              ∧ after.db.Holds (records ++ [employeeOf (requestText employeeStr)]))
            ∨ (¬ acceptable (requestText employeeStr)
              ∧ acceptedRequests later = []
              ∧ StartsWithError reply
              ∧ after.db.Holds records)) := by
  let received := world.receive slot chunk
  obtain ⟨rest, place⟩ := addString_received clear whole
  have asked : received.request slot = .add := by
    rw [World.request, World.receive_state, state, receive_routine whole]
    exact requestOf_msg _ _
  have clean := nul_not_mem_requestText employeeStr
  have taken : received.addRequest slot = requestText employeeStr := by
    rw [World.addRequest, place, List.append_assoc, List.cons_append, cString_append clean]
  have ends : EndsInside (addString (received.message slot)) := Or.inl (by simp [received, place])
  have outcome := handleClientFsm_handled handled
  obtain ⟨next, buffer, clients, unchanged⟩ := outcome.clients fun _ => ends
  have msg : next = .msg := by
    rw [unchanged, if_neg (by simp [asked, received]), World.receive_state, state]
  rw [World.receive_setClient, msg] at clients
  obtain ⟨source, edited, added⟩ := handleClientFsm_add_cases asked handled
  refine ⟨buffer, ?_⟩
  rcases added with ⟨scanned, same, -, rfl⟩ | ⟨db, saved, scanned, saving, sameDb, sameFile, rfl⟩
  · have refused := (acceptable_of_added scanned).1
    change _ ↔ acceptable (received.addRequest slot) at refused
    obtain ⟨report, size⟩ := replyBytes_report source .error 0 []
    rw [List.append_nil] at report
    refine ⟨_, clients, rfl, size, Or.inr ⟨?_, rfl, report.mpr rfl, same ▸ holds⟩⟩
    rw [← taken, ← refused]
    simp
  · have accepted := (acceptable_of_added scanned).1.mp rfl
    obtain ⟨report, size⟩ := replyBytes_report source .employeeAddResp 0 []
    rw [List.append_nil] at report
    have accepts : Accepts env dbfd received (received.addMemory slot) after :=
      ⟨db, edited, saved, scanned, saving, sameDb, sameFile⟩
    obtain ⟨employee, extended, described⟩ := accepts.holds holds
    have terminated : nul ∈ received.addMemory slot :=
      List.mem_append_left _ (by simp [received, place])
    obtain rfl := described terminated
    change acceptable (received.addRequest slot) at accepted
    change after.db.Holds (records ++ [employeeOf (received.addRequest slot)]) at extended
    rw [taken] at accepted extended
    refine ⟨_, clients, rfl, size, Or.inl ⟨accepted, ?_, ?_, extended⟩⟩
    · change [received.addRequest slot] = _
      rw [taken]
    · rw [report]
      decide

/-- A list request is answered with the records of the database. -/
theorem list_exchange (state : (world.clients slot).state = .msg)
    (whole : chunk.bytes = Routine.listEmployees.request) (holds : world.db.Holds records)
    : ∃ buffer header,
        handleClientFsm env dbfd (world.receive slot chunk) slot
          = .ok (world.setClient slot .msg buffer,
              (header :: records.map listEntry).map (.sent slot))
        ∧ ListHeader records header := by
  let received := world.receive slot chunk
  have asked : received.request slot = .list := by
    rw [World.request, World.receive_state, state, receive_routine whole]
    exact requestOf_msg _ _
  have same : received.db.Holds records := holds
  obtain ⟨buffer, handled⟩ := handleClientFsm_list env dbfd received slot asked same
  rw [World.receive_setClient] at handled
  refine ⟨buffer, _, handled, (replyBytes_report _ _ _ []).2, wireType_wireHeader _ _ _, ?_⟩
  rw [replyBytes, wireLength_wireHeader]
  exact holds.count

-----------------------------------------------------------------------------------------
-- What the client makes of a list reply
-----------------------------------------------------------------------------------------

variable {read : ReadOutcome protoHeaderSize}

/-- The client decodes the header of a list reply as it was sent. -/
private theorem readReply_listHeader (header : ListHeader records read.bytes)
    : (readReply listRequest read).headerType = MsgType.employeeListResp.code
      ∧ (readReply listRequest read).headerLength.toNat = records.length := by
  have enough : 6 ≤ read.bytes.length := by
    rw [header.size]
    decide
  rw [readReply_headerType _ _ (by decide), readReply_headerLength _ _ (by decide),
    wireType_append (by omega), wireLength_append enough]
  exact ⟨header.type, header.count⟩

theorem announced_of_header (header : ListHeader records read.bytes)
    : announced read = records.length := by
  obtain ⟨type, count⟩ := readReply_listHeader header
  rw [announced, type, if_neg (by decide), count]

/-- When the records follow the header, one for each read, the client prints their lines. -/
theorem listEmployees_of_header {entries : List (ReadOutcome employeeSize)}
    (header : ListHeader records read.bytes)
    (whole : entries.map (·.bytes) = records.map listEntry)
    : (listEmployees read (entryReads entries)).status = .success
      ∧ (listEmployees read (entryReads entries)).printed = records.map printedLine := by
  obtain ⟨type, count⟩ := readReply_listHeader header
  have sizes : entries.length = records.length := by
    simpa using congrArg List.length whole
  have each (k : Nat) (inside : k < records.length)
      : (entryReads entries (0 + k)).bytes = listEntry records[k] := by
    have found := congrArg (·[k]?) whole
    simp only [List.getElem?_map, List.getElem?_eq_getElem inside,
      List.getElem?_eq_getElem (sizes ▸ inside), Option.map_some, Option.some.injEq] at found
    rw [entryReads, Nat.zero_add, List.getElem?_eq_getElem (sizes ▸ inside)]
    exact found
  have printed := readEntries_whole (readReply_zeroBehind read) each
  rw [listEmployees, type, if_neg (by decide), count]
  exact ⟨rfl, printed⟩

end LowlevelAcademy.Network
