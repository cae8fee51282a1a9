import LowlevelAcademy.Server.Progress

/-! The in-memory database over whole runs: it only ever grows by the records of the accepted
add requests, in the order they were handled, and every list reply shows all of it.
-/

namespace LowlevelAcademy.Correctness

open LowlevelAcademy.Foundations
open LowlevelAcademy.Database
open LowlevelAcademy.Server

/-- A record as a reader of strings sees it: name and address up to their first terminator. -/
def recordFields (employee : Employee) : List UInt8 × List UInt8 × UInt32 :=
  (cString nul employee.name.toList, cString nul employee.address.toList, employee.hours)

/-- The same fields of a record that a client received in a list reply. -/
def entryFields (entry : List UInt8) : List UInt8 × List UInt8 × UInt32 :=
  (cString nul (slice 0 256 entry), cString nul (slice 256 256 entry),
    ntohl (load32 (entry.drop 512)))

/-- The replies to a list request show the records: a header with their number and one entry
for each, in order.
-/
def ListAnswer (slot : Slot) (records : List Employee) (replies : List Action) : Prop :=
  ∃ header entries,
    replies = (header :: entries).map (.sent slot)
    ∧ wireType header = MsgType.employeeListResp.code
    ∧ (wireLength header).toNat = records.length
    ∧ entries.map entryFields = records.map recordFields

/-- The actions of a step answer a list request with the records, and send a list reply for
nothing else.
-/
def ListsAnswered (records : List Employee) (actions : List Action) : Prop :=
  (∀ slot buffer replies,
    actions = .handled slot .msg buffer :: replies
    → requestOf .msg buffer.toList = .list
    → ListAnswer slot records replies)
  ∧ ∀ slot message,
      .sent slot message ∈ actions
      → wireType message = MsgType.employeeListResp.code
      → ∃ buffer replies,
          actions = .handled slot .msg buffer :: replies
          ∧ requestOf .msg buffer.toList = .list

/-- An entry of a list reply shows the fields of its record. -/
theorem entryFields_listEntry (employee : Employee)
    : entryFields (listEntry employee) = recordFields employee := by
  let name := (strncpy nul 256 employee.name.toList).toList
  let address := (strncpy nul 256 employee.address.toList).toList
  have nameSize : name.length = 256 := List.Vector.toList_length _
  have addressSize : address.length = 256 := List.Vector.toList_length _
  have entry : listEntry employee
      = name ++ (address ++ (beBytes 4 employee.hours.toNat ++ [])) := by
    simp only [listEntry, List.append_nil, List.append_assoc, name, address]
  have first : slice 0 256 (listEntry employee) = name := by
    rw [entry, slice, List.drop_zero, List.take_left' nameSize]
  have second : slice 256 256 (listEntry employee) = address := by
    rw [entry, slice, List.drop_left' nameSize, List.take_left' addressSize]
  have third : (listEntry employee).drop 512 = beBytes 4 employee.hours.toNat ++ [] := by
    rw [entry, ← List.drop_drop (i := 256) (j := 256), List.drop_left' nameSize,
      List.drop_left' addressSize]
  rw [entryFields, first, second, third, ← leBytes_swap32, load32_leBytes_append,
    cString_copied, cString_copied]
  exact congrArg _ (congrArg _ (swap32_swap32 _))

variable {env : Env} {dbfd : Nat} {world next : World} {slot : Slot} {actions : List Action}
variable {records : List Employee}

/-- Handling a list request on a held database answers it. -/
theorem listAnswer_of_handled (handled : Handled env dbfd world slot next actions)
    (holds : world.db.Holds records) (asked : world.request slot = .list)
    : ListAnswer slot records actions := by
  cases handled with
  | listed _ reply =>
      obtain ⟨last, expected⟩ := fsmReplyList_ok holds (world.clients slot).buffer.swapHeader
      rw [reply] at expected
      obtain ⟨rfl, rfl⟩ := Prod.mk.inj (Except.ok.inj expected)
      refine ⟨_, _, rfl, wireType_wireHeader _ _ _, ?_, ?_⟩
      · rw [replyBytes, wireLength_wireHeader, holds.count]
      · rw [List.map_map]
        exact List.map_congr_left fun employee _ => entryFields_listEntry employee
  | greeting other | refused other | ignored other | rejected other | added other =>
      rw [asked] at other
      cases other

/-- Only a list request is answered with a list reply. -/
theorem asked_of_listReply (handled : Handled env dbfd world slot next actions)
    (ends : world.request slot = .add → EndsInside (addString (world.message slot)))
    {other : Slot} {message : List UInt8} (sent : .sent other message ∈ actions)
    (type : wireType message = MsgType.employeeListResp.code)
    : other = slot ∧ world.request slot = .list := by
  have notList {kind : MsgType} (differs : kind.code ≠ MsgType.employeeListResp.code)
      (length : UInt16) (rest : List UInt8)
      : wireType (wireHeader kind.code length ++ rest) ≠ MsgType.employeeListResp.code := by
    rwa [wireType_wireHeader]
  cases handled with
  | greeting =>
      simp only [List.mem_singleton, Action.sent.injEq] at sent
      obtain ⟨-, rfl⟩ := sent
      rw [helloBytes, replyBytes, List.append_assoc] at type
      exact absurd type (notList (by decide) _ _)
  | refused =>
      simp only [List.mem_singleton, Action.sent.injEq] at sent
      obtain ⟨-, rfl⟩ := sent
      exact absurd type (notList (by decide) _ _)
  | ignored => cases sent
  | listed asked =>
      simp only [List.mem_map, Action.sent.injEq] at sent
      obtain ⟨_, _, same, -⟩ := sent
      exact ⟨same.symm, asked⟩
  | rejected asked _ frame | added asked _ _ frame =>
      obtain ⟨rfl, -⟩ := frame (ends asked)
      simp only [List.mem_cons, Action.sent.injEq, reduceCtorEq, List.not_mem_nil, or_false,
        false_or] at sent
      obtain ⟨-, rfl⟩ := sent
      exact absurd type (notList (by decide) _ _)

/-- A turn on a held database answers list requests with its records. -/
theorem listsAnswered_of_turn {server : State} (turn : Turn env dbfd server actions next)
    (holds : server.world.db.Holds records) (terminated : TerminatedAdds server env)
    : ListsAnswered records actions := by
  cases turn with
  | idle | refused | accepted | disconnected => constructor <;> simp
  | @handled slot chunk _ later reading received outcome =>
      have request (state : (server.world.clients slot).state = .msg)
          : requestOf .msg ((server.world.receive slot chunk).clients slot).buffer.toList
            = (server.world.receive slot chunk).request slot := by
        rw [World.request, World.receive_state, state]
      constructor
      · intro other buffer replies same asked
        obtain ⟨⟨rfl, state, rfl⟩, rfl⟩ : (_ ∧ _ ∧ _) ∧ _ := by
          simpa only [List.cons.injEq, Action.handled.injEq] using same
        rw [request state] at asked
        exact listAnswer_of_handled outcome holds asked
      · intro other message sent type
        have replied : .sent other message ∈ later := by simpa using sent
        obtain ⟨rfl, asked⟩ := asked_of_listReply outcome
          (fun add => Or.inl (terminated _ reading chunk received add)) replied type
        have state := ((server.world.receive other chunk).request_asked other asked).1
        rw [World.receive_state] at state
        rw [state]
        exact ⟨_, later, rfl, (request state).trans asked⟩

-----------------------------------------------------------------------------------------
-- The database over whole runs
-----------------------------------------------------------------------------------------

/-- One step appends the records of its accepted requests. -/
theorem holds_step {server after : State} (holds : server.world.db.Holds records)
    (step : Step dbfd TerminatedAdds server actions after)
    : after.world.db.Holds (records ++ (acceptedRequests actions).map employeeOf) := by
  obtain ⟨env, terminated, result⟩ := step
  rcases (pollLoopStep_turn result).database with
      ⟨sameDb, -, none⟩ | ⟨memory, accepts, one, member⟩
  · rw [sameDb, none]
    simpa using holds
  · obtain ⟨employee, appended, described⟩ := accepts.holds holds
    rw [one, List.map_singleton, ← described (member terminated)]
    exact appended

/-- After every run with terminated add strings the database holds the initial records and
then one record for each accepted add request, in order. The next step answers a list request
with exactly these records, and whatever a ready client sends, there is a next step while
memory and the counter last.
-/
theorem database_appends {db : Db} {file : OpenFile UInt8} {listenFd : Int32}
    {history : List (List Action)} {server : State} (holds : db.Holds records)
    (run : Run (Step dbfd TerminatedAdds) (startServer db file listenFd) history server)
    : let current := records ++ (acceptedRequests history.flatten).map employeeOf
      server.world.db.Holds current
      ∧ (∀ env actions next,
          TerminatedAdds server env
          → pollLoopStep env dbfd server = .ok (next, actions)
          → ListsAnswered current actions)
      ∧ ∀ env contents slot,
          server.reading = some slot
          → env.realloc = some contents
          → TerminatedAdds server env
          → current.length < 65535
          → ∃ next, pollLoopStep env dbfd server = .ok next := by
  have kept := run.invariant
    (motive := fun history server =>
      server.world.db.Holds (records ++ (acceptedRequests history.flatten).map employeeOf))
    (by simpa [acceptedRequests, startServer] using holds)
    (fun history _ actions _ before last => by
      simpa using holds_step before last)
  refine ⟨kept, fun env actions next terminated result => ?_, ?_⟩
  · exact listsAnswered_of_turn (pollLoopStep_turn result) kept terminated
  · intro env contents slot reading available terminated room
    exact pollLoopStep_ok kept (fun _ _ _ _ => room) reading available terminated

/-- A client adds the record `a,b,1` to an empty database. -/
theorem database_appends_one
    : ∃ history server,
        Run (Step 3 TerminatedAdds) (startServer ⟨headerOf 0, some []⟩ (.opened []) 4) history
          server
        ∧ server.world.db.Holds [employeeOf [97, 44, 98, 44, 49]] := by
  have empty : Db.Holds ⟨headerOf 0, some []⟩ [] := ⟨rfl, rfl⟩
  obtain ⟨history, server, -, -, run, one, -⟩ :=
    first_add_run 3 (.opened []) 4 empty (by decide)
      (show nul ∉ [97, 44, 98, 44, 49] by decide) (by decide) (by decide)
  have terminated := run_of_orderly (fun _ _ orderly => orderly.terminated) run
  have appended := (database_appends empty terminated).1
  rw [one] at appended
  exact ⟨history, server, terminated, appended⟩

end LowlevelAcademy.Correctness
