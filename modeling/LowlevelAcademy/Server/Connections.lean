import LowlevelAcademy.Server.Responses

/-! A connection as its client sees it: what the server makes of its messages depends on the
connection's own state and buffer and on the database, and on nothing else.
-/

namespace LowlevelAcademy.Server

open LowlevelAcademy.Foundations
open LowlevelAcademy.Database

/-- What requests can see of a database: the counter and the records. -/
structure Visible where
  count : UInt16
  employees : Option (List Employee)

/-- The part of a database that requests can see. -/
def visible (db : Db) : Visible := ⟨db.header.count, db.employees⟩

variable {env env' : Env} {dbfd dbfd' : Int} {world world' after after' : World}
variable {slot slot' : Slot} {actions actions' : List Action}

/-- A hello's outcome depends on the client's buffer alone. -/
theorem handleHello_alone (buffer : Buffer)
    : ∃ state final reply, ∀ (world : World) (slot : Slot),
        handleHello world slot buffer
        = (world.setClient slot state final, [.sent slot reply]) := by
  let versioned := buffer.setHelloProto (ntohs buffer.helloProto)
  by_cases unknown : buffer.headerType ≠ MsgType.helloReq.code ∨ buffer.headerLength ≠ 1
  · refine ⟨.hello, (fsmReplyHelloError buffer).1, (fsmReplyHelloError buffer).2, ?_⟩
    intro world slot
    rw [handleHello, if_pos unknown]
  by_cases version : versioned.helloProto ≠ protoVersion
  · refine ⟨.hello, (fsmReplyHelloError versioned).1, (fsmReplyHelloError versioned).2, ?_⟩
    intro world slot
    rw [handleHello, if_neg unknown]
    exact if_pos version
  · refine ⟨.msg, (fsmReplyHello versioned).1, (fsmReplyHello versioned).2, ?_⟩
    intro world slot
    rw [handleHello, if_neg unknown]
    exact if_neg version

/-- A list reply depends on the visible part of the database and the buffer alone. -/
theorem fsmReplyList_visible {db db' : Db} (same : visible db = visible db') (buffer : Buffer)
    : fsmReplyList db buffer = fsmReplyList db' buffer := by
  obtain ⟨count, employees⟩ := Visible.mk.inj same
  simp only [fsmReplyList, count, employees]

/-- Two worlds look the same to a client: it has the same state and buffer in both, in whatever
slot, and the databases look the same.
-/
structure SameView (world : World) (slot : Slot) (world' : World) (slot' : Slot) : Prop where
  state : (world.clients slot).state = (world'.clients slot').state
  buffer : (world.clients slot).buffer = (world'.clients slot').buffer
  database : visible world.db = visible world'.db

/-- The client gets the same from handling its message in both: the same next state, buffer and
replies.
-/
structure SameOutcome (slot : Slot) (after : World) (actions : List Action)
    (slot' : Slot) (after' : World) (actions' : List Action)
    : Prop where
  state : (after.clients slot).state = (after'.clients slot').state
  buffer : (after.clients slot).buffer = (after'.clients slot').buffer
  replies : repliesOf actions = repliesOf actions'

/-- Finishing an accepted or rejected add gives the client the given buffer and one reply. -/
theorem finishAdd_outcome {buffer : Buffer} {added : Added}
    (finished : finishAdd env dbfd world slot buffer added = .ok (after, actions))
    : (after.clients slot).state = .msg
      ∧ (after.clients slot).buffer = buffer
      ∧ repliesOf actions
        = [replyBytes (world.clients slot).buffer
            (match added.status with | .error => .error | .success => .employeeAddResp) 0] := by
  obtain ⟨_ | _, db, memory⟩ := added
  · simp only [finishAdd] at finished
    split at finished
    · cases finished
    · obtain ⟨rfl, rfl⟩ := Prod.mk.inj (Except.ok.inj finished)
      simp [World.setClient, repliesOf]
  · obtain ⟨rfl, rfl⟩ := Prod.mk.inj (Except.ok.inj finished)
    simp [World.setClient, repliesOf]

/-- Handling a message gives a client the same in two worlds that look the same to it. -/
theorem SameView.handle (view : SameView world slot world' slot')
    (terminated : world.request slot = .add → nul ∈ addString (world.message slot))
    (handled : handleClientFsm env dbfd world slot = .ok (after, actions))
    (handled' : handleClientFsm env' dbfd' world' slot' = .ok (after', actions'))
    : SameOutcome slot after actions slot' after' actions' := by
  have message : world.message slot = world'.message slot' := by
    rw [World.message, view.buffer]
  have request : world.request slot = world'.request slot' := by
    rw [World.request, view.state, message]
  have greets (state : (world.clients slot).state = .hello)
      : SameOutcome slot after actions slot' after' actions' := by
    obtain ⟨next, final, reply, alone⟩ := handleHello_alone (world.clients slot).buffer.swapHeader
    simp only [handleClientFsm, state, alone] at handled
    simp only [handleClientFsm, ← view.state, state, ← view.buffer, alone] at handled'
    obtain ⟨rfl, rfl⟩ := Prod.mk.inj (Except.ok.inj handled)
    obtain ⟨rfl, rfl⟩ := Prod.mk.inj (Except.ok.inj handled')
    constructor <;> simp [World.setClient, repliesOf]
  cases asked : world.request slot with
  | greeting | refused => exact greets (world.request_asked slot asked).1
  | ignored =>
      rw [handleClientFsm_ignored env dbfd world slot asked] at handled
      rw [handleClientFsm_ignored env' dbfd' world' slot' (request ▸ asked)] at handled'
      obtain ⟨rfl, rfl⟩ := Prod.mk.inj (Except.ok.inj handled)
      obtain ⟨rfl, rfl⟩ := Prod.mk.inj (Except.ok.inj handled')
      constructor <;> simp [World.setClient, view.state, view.buffer]
  | list =>
      rw [handleClientFsm_list_eq env dbfd world slot asked, handleList] at handled
      rw [handleClientFsm_list_eq env' dbfd' world' slot' (request ▸ asked), handleList,
        ← view.buffer, ← fsmReplyList_visible view.database] at handled'
      split at handled
      · cases handled
      next listed =>
      simp only [listed] at handled'
      obtain ⟨rfl, rfl⟩ := Prod.mk.inj (Except.ok.inj handled)
      obtain ⟨rfl, rfl⟩ := Prod.mk.inj (Except.ok.inj handled')
      constructor <;> simp [World.setClient]
  | add =>
      have inside := terminated asked
      rw [handleClientFsm_add_buffer env dbfd world slot asked (Or.inl inside)] at handled
      rw [handleClientFsm_add_buffer env' dbfd' world' slot' (request ▸ asked)
        (Or.inl (message ▸ inside)), ← message, ← view.buffer] at handled'
      split at handled
      · cases handled
      next added scanned =>
      split at handled'
      · cases handled'
      next added' scanned' =>
      obtain ⟨status, memory⟩ := addEmployee_agrees scanned scanned'
      obtain ⟨state, buffer, replies⟩ := finishAdd_outcome handled
      obtain ⟨state', buffer', replies'⟩ := finishAdd_outcome handled'
      refine ⟨state.trans state'.symm, ?_, ?_⟩
      · rw [buffer, buffer', addedBuffer, addedBuffer, status, memory]
      · rw [replies, replies', status, view.buffer]

/-- Worlds that look the same to a client still do after it received the same data. -/
theorem SameView.receive (view : SameView world slot world' slot') (chunk : Chunk)
    : SameView (world.receive slot chunk) slot (world'.receive slot' chunk) slot' := by
  refine ⟨?_, ?_, view.database⟩
  · rw [World.receive_state, World.receive_state, view.state]
  · simp [World.receive, World.setClient, view.buffer]

-----------------------------------------------------------------------------------------
-- Connections
-----------------------------------------------------------------------------------------

/-- What can become of a connection: from the reads that were handled on it, each with the
database that it saw, to the client's state and buffer and to the messages that were sent.
-/
inductive Served : List (Chunk × Visible) → StateE → Buffer → List (List UInt8) → Prop
  | opened : Served [] .hello clearedBuffer []
  | handled {inputs : List (Chunk × Visible)} {replies : List (List UInt8)} {env : Env} {dbfd : Int}
    {world after : World} {slot : Slot} {chunk : Chunk} {actions : List Action}
    (before : Served inputs (world.clients slot).state (world.clients slot).buffer replies)
    (terminated
      : (world.receive slot chunk).request slot = .add
        → nul ∈ addString ((world.receive slot chunk).message slot))
    (result : handleClientFsm env dbfd (world.receive slot chunk) slot = .ok (after, actions))
    : Served (inputs ++ [(chunk, visible world.db)]) (after.clients slot).state
        (after.clients slot).buffer (replies ++ repliesOf actions)

variable {inputs inputs' : List (Chunk × Visible)} {state state' : StateE}
variable {buffer buffer' : Buffer} {replies replies' : List (List UInt8)}

/-- What becomes of a connection is determined by its reads and the databases they saw. By
induction on the reads: two worlds look the same to the client before each of them.
-/
theorem Served.functional (first : Served inputs state buffer replies)
    (second : Served inputs' state' buffer' replies') (same : inputs = inputs')
    : state = state' ∧ buffer = buffer' ∧ replies = replies' := by
  induction first generalizing inputs' state' buffer' replies' with
  | opened =>
      cases second with
      | opened => exact ⟨rfl, rfl, rfl⟩
      | handled => simp at same
  | @handled _ _ _ _ _ _ _ chunk _ before terminated result ih =>
      cases second with
      | opened => simp at same
      | handled before' terminated' result' =>
          obtain ⟨earlier, last⟩ := List.append_inj' same rfl
          obtain ⟨rfl, database⟩ := Prod.mk.inj (List.singleton_inj.mp last)
          obtain ⟨sameState, sameBuffer, sameReplies⟩ := ih before' earlier
          have view := (SameView.mk sameState sameBuffer database).receive chunk
          have outcome := view.handle terminated result result'
          exact ⟨outcome.state, outcome.buffer, by rw [sameReplies, outcome.replies]⟩

end LowlevelAcademy.Server
