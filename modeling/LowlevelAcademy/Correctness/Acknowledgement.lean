import LowlevelAcademy.Server.Startup

/-! What an acknowledged add is worth: the reply is sent before the file is written, and the
results of the writes are not looked at.
-/

namespace LowlevelAcademy.Correctness

open LowlevelAcademy.Foundations
open LowlevelAcademy.Database
open LowlevelAcademy.Server

/-- The message is a `MSG_EMPLOYEE_ADD_RESP`. -/
def IsAddResponse (message : List UInt8) : Prop :=
  message.length = protoHeaderSize ∧ wireType message = MsgType.employeeAddResp.code

/-- What an action does to the database file. -/
def replay (file : OpenFile UInt8) : Action → OpenFile UInt8
  | .saved _ written => file.rewind.writeAll written
  | _ => file

/-- The bytes of the database file in the middle of a step, after some of its actions. -/
def fileAfter (step : StepRecord) (done : List Action) : List UInt8 :=
  (done.foldl replay step.before.world.file).content

/-- The index of the record that an accepted request adds, and the record that it has there. -/
def addedIndex (step : StepRecord) : Nat := step.before.world.db.header.count.toNat

def addedRecord (step : StepRecord) : Option Employee :=
  (step.after.world.db.employees.getD [])[addedIndex step]?

/-- The bytes are a complete file of a database that has the record at this index. -/
def Contains (content : List UInt8) (index : Nat) (record : Option Employee) : Prop :=
  ∃ (roster : Roster) (employee : Employee),
    content = roster.encode ∧ roster.records[index]? = some employee ∧ record = some employee

/-- Acknowledged is stored: when a `MSG_EMPLOYEE_ADD_RESP` is sent, the file already contains the
added record; and none is sent when a write of the save is not complete.
-/
structure AcknowledgedStored (step : StepRecord) : Prop where
  stored
    : ∀ done slot message later,
        step.actions = done ++ .sent slot message :: later
        → IsAddResponse message
        → Contains (fileAfter step done) (addedIndex step) (addedRecord step)
  saved
    : ∀ slot written message,
        .saved slot written ∈ step.actions
        → (∃ call ∈ written, call.2 ≠ .complete)
        → .sent slot message ∈ step.actions
        → ¬ IsAddResponse message

variable {env : Env} {dbfd : Nat} {server next : State} {actions : List Action}
variable {world after : World} {slot : Slot}

/-- The replies to requests other than adds are no add responses: they have another type, or,
as the records of a list reply, another size.
-/
theorem no_addResponse (handled : Handled env dbfd world slot after actions)
    (notAdd : world.request slot ≠ .add) {other : Slot} {message : List UInt8}
    (sent : .sent other message ∈ actions)
    : ¬ IsAddResponse message := by
  have differs {kind : MsgType} (another : kind.code ≠ MsgType.employeeAddResp.code)
      (length : UInt16) (rest : List UInt8)
      : ¬ IsAddResponse (wireHeader kind.code length ++ rest) := by
    rintro ⟨-, type⟩
    rw [wireType_wireHeader] at type
    exact another type
  cases handled with
  | greeting =>
      simp only [List.mem_singleton, Action.sent.injEq] at sent
      rw [sent.2, helloBytes, replyBytes, List.append_assoc]
      exact differs (by decide) _ _
  | refused =>
      simp only [List.mem_singleton, Action.sent.injEq] at sent
      rw [sent.2]
      exact differs (by decide) _ _
  | ignored => cases sent
  | listed asked reply =>
      simp only [List.mem_map, Action.sent.injEq] at sent
      obtain ⟨_, member, -, rfl⟩ := sent
      obtain ⟨entries, listed, rfl⟩ := fsmReplyList_cases reply
      rcases List.mem_cons.mp member with rfl | entry
      · exact differs (by decide) _ _
      · rintro ⟨size, -⟩
        rw [listEntries_length listed _ entry] at size
        cases size
  | rejected asked | added asked => exact absurd asked notAdd

/-- Only an accepted add is answered with an add response. -/
private theorem no_addResponse_step (result : pollLoopStep env dbfd server = .ok (next, actions))
    (none : ¬ AddsRecord server env) {other : Slot} {message : List UInt8}
    (sent : .sent other message ∈ actions)
    : ¬ IsAddResponse message := by
  rcases pollLoopStep_event result with
      ⟨-, ⟨-, rfl | rfl⟩ | ⟨_, -, -, -, rfl⟩⟩
      | ⟨slot, reading, ⟨-, -, rfl⟩ | ⟨chunk, later, received, handled, rfl⟩⟩
  · simp at sent
  · simp at sent
  · simp at sent
  · simp at sent
  · have replied : .sent other message ∈ later := by simpa using sent
    by_cases asked : (server.world.receive slot chunk).request slot = .add
    · obtain ⟨reply, edited, ⟨-, -, -, rfl⟩ | ⟨db, saved, scanned, -⟩⟩ :=
        handleClientFsm_add_cases asked handled
      · simp only [List.mem_cons, Action.sent.injEq, reduceCtorEq, List.not_mem_nil, or_false,
          false_or] at replied
        rintro ⟨-, type⟩
        rw [replied.2, replyBytes, wireType_wireHeader] at type
        exact absurd type (by decide)
      · have accepted := (acceptable_of_added scanned).1.mp rfl
        exact absurd ⟨slot, chunk, reading, received, asked, accepted⟩ none
    · exact no_addResponse (handleClientFsm_handled handled) asked replied

/-- A step that accepts no add request acknowledges nothing. -/
private theorem acknowledgedStored_of_not_adds {step : StepRecord}
    (result : pollLoopStep step.env dbfd step.before = .ok (step.after, step.actions))
    (none : ¬ AddsRecord step.before step.env)
    : AcknowledgedStored step := by
  constructor
  · intro done slot message later split response
    have sent : .sent slot message ∈ step.actions := by simp [split]
    exact absurd response (no_addResponse_step result none sent)
  · exact fun slot written message _ _ sent => no_addResponse_step result none sent

/-- The file does not contain the record that the next accepted request will add. -/
private def Ahead (world : World) : Prop :=
  ∀ record, ¬ Contains world.file.content world.db.header.count.toNat record

/-- A file that contains a record at an index counts it, and is as long as its count says. -/
private theorem Contains.counted {content : List UInt8} {index : Nat} {record : Option Employee}
    (contains : Contains content index record)
    : index < (storedHeader content).count.toNat
      ∧ content.length = headerSize + employeeSize * (storedHeader content).count.toNat := by
  obtain ⟨roster, employee, rfl, found, -⟩ := contains
  obtain ⟨inside, -⟩ := List.getElem?_eq_some_iff.mp found
  have count : (storedHeader roster.encode).count.toNat = roster.records.length := by
    rw [Roster.encode, storedHeader_encodeHeader roster.bound, headerOf_count roster.bound]
  rw [count]
  exact ⟨inside, roster.encode_length⟩

/-- A file that is no longer than the live records need has no further record. -/
private theorem ahead_of_short {world : World}
    (short : world.file.content.length ≤ headerSize + employeeSize * world.db.header.count.toNat)
    : Ahead world := by
  intro record contains
  obtain ⟨counted, length⟩ := contains.counted
  have needed : headerSize + employeeSize * (world.db.header.count.toNat + 1)
      ≤ world.file.content.length := by
    rw [length]
    exact Nat.add_le_add_left (Nat.mul_le_mul_left _ counted) _
  have positive : 0 < employeeSize := by decide
  rw [Nat.mul_succ] at needed
  omega

/-- Nor has a file that counts the live records, however long it is. -/
private theorem ahead_of_counted {world : World}
    (counted : (storedHeader world.file.content).count = world.db.header.count)
    : Ahead world := by
  intro record contains
  have more := contains.counted.1
  rw [counted] at more
  exact absurd more (Nat.lt_irrefl _)

/-- A step that accepts one acknowledges it while the file still is what it was before. -/
private theorem not_acknowledgedStored {step : StepRecord}
    (result : pollLoopStep step.env dbfd step.before = .ok (step.after, step.actions))
    (adds : AddsRecord step.before step.env) (ahead : Ahead step.before.world)
    : ¬ AcknowledgedStored step := by
  intro acknowledged
  obtain ⟨slot, state, buffer, request, reply, written, -, -, same⟩ :=
    pollLoopStep_adds result adds
  have response : IsAddResponse (replyBytes reply .employeeAddResp 0) := by
    constructor
    · simp [replyBytes, buffSize]
    · rw [replyBytes, wireType_wireHeader]
  have unchanged : fileAfter step [.handled slot state buffer, .added slot request .success]
      = step.before.world.file.content :=
    rfl
  have contains := acknowledged.stored [_, _] slot _ [_] same response
  rw [unchanged] at contains
  exact ahead _ contains

/-- In every run a file that starts no longer than its counted records need stays so. -/
private theorem file_length_run {start : State} {history : List (List Action)} {guard : Guard}
    (run : Run (Step dbfd guard) start history server)
    (short
      : start.world.file.content.length
        ≤ headerSize + employeeSize * start.world.db.header.count.toNat)
    : server.world.file.content.length
      ≤ headerSize + employeeSize * server.world.db.header.count.toNat := by
  refine run.stateInvariant
    (motive := fun server =>
      server.world.file.content.length
        ≤ headerSize + employeeSize * server.world.db.header.count.toNat)
    short ?_
  rintro state actions next kept ⟨env, -, result⟩
  rcases (pollLoopStep_turn result).database with ⟨sameDb, sameFile, -⟩ | ⟨memory, accepts, -⟩
  · rw [sameDb, sameFile]
    exact kept
  · exact accepts.file_length kept

/-- With complete writes a file that was loaded counts the live records throughout. -/
private theorem file_counted_run {content : List UInt8} {db : Db} {file : OpenFile UInt8}
    {listenFd : Int32} {history : List (List Action)}
    (loaded : loadDatabase dbfd content = .ok (db, file))
    (run : Run (Step dbfd WritesComplete) (startServer db file listenFd) history server)
    : (storedHeader server.world.file.content).count = server.world.db.header.count := by
  obtain ⟨loadable, stored⟩ :=
    (loadDatabase_ok_iff (Int.natCast_nonneg dbfd) content db).mp ⟨file, loaded⟩
  have live := loadable.represents
  rw [← stored] at live
  have kept := run.stateInvariant
    (motive := fun server =>
      (∃ roster, server.world.db.Represents roster)
      ∧ ∃ content,
          server.world.file.content = content
          ∧ (storedHeader content).count = server.world.db.header.count)
    ⟨live, content, loadDatabase_content loaded, ?_⟩ ?_
  · obtain ⟨-, content, rfl, counted⟩ := kept
    exact counted
  · exact (congrArg (fun db : Db => db.header.count) stored).symm
  · rintro state actions next ⟨⟨roster, live⟩, content, rfl, counted⟩ ⟨env, complete, result⟩
    rcases (pollLoopStep_turn result).stores live complete with
        ⟨sameDb, sameFile, -⟩ | ⟨extended, -, -, -, stores⟩
    · rw [sameDb, sameFile]
      exact ⟨⟨roster, live⟩, _, rfl, counted⟩
    · refine ⟨⟨extended, stores.live⟩, _, stores.content, ?_⟩
      rw [Roster.encode, List.append_assoc,
        storedHeader_encodeHeader extended.bound]
      exact (reloaded_of_represents stores.live).1

/-- In every run, whatever happens to the writes, a step that accepts no add request keeps what
acknowledging promises. A step that accepts one breaks it: whatever happens to the writes when
the file had no bytes behind its counted records at the start, and otherwise, on a file that was
loaded, when all writes are complete.
-/
theorem acknowledged_stored_iff {db : Db} {file : OpenFile UInt8} {listenFd : Int32}
    {steps : List StepRecord} {server : State}
    (run : RecordedRun dbfd (fun _ _ => True) (startServer db file listenFd) steps server)
    : (∀ step ∈ steps, ¬ AddsRecord step.before step.env → AcknowledgedStored step)
      ∧ (file.content.length ≤ headerSize + employeeSize * db.header.count.toNat
          ∨ (∃ content, loadDatabase dbfd content = .ok (db, file))
            ∧ (∀ step ∈ steps, ∀ i, step.env.writes i = .complete)
        → ∀ step ∈ steps, AcknowledgedStored step ↔ ¬ AddsRecord step.before step.env) := by
  have kept (step : StepRecord) (taken : step ∈ steps)
      : ¬ AddsRecord step.before step.env → AcknowledgedStored step :=
    acknowledgedStored_of_not_adds (run.step taken).2.2
  refine ⟨kept, fun known step taken => ⟨fun acknowledged adds => ?_, kept step taken⟩⟩
  obtain ⟨⟨history, before⟩, -, result⟩ := run.step taken
  have ahead : Ahead step.before.world := by
    rcases known with short | ⟨⟨content, loaded⟩, complete⟩
    · exact ahead_of_short (file_length_run before short)
    · obtain ⟨⟨_, before⟩, -⟩ := (run.guarded complete : RecordedRun dbfd WritesComplete _ _ _).step taken
      exact ahead_of_counted (file_counted_run loaded before)
  exact not_acknowledgedStored result adds ahead acknowledged

/-- In a run on a new database that adds a record all other steps keep the promise, and that
step does not.
-/
theorem acknowledged_stored_iff_first
    : ∃ db file steps server,
        main true .granted 3 none = some (db, file)
        ∧ RecordedRun 3 (fun _ _ => True) (startServer db file 4) steps server
        ∧ (∃ step ∈ steps, AddsRecord step.before step.env)
        ∧ ∀ step ∈ steps, AcknowledgedStored step ↔ ¬ AddsRecord step.before step.env := by
  obtain ⟨db, file, steps, server, started, empty, recorded, adds⟩ := main_new_adds
  have unguarded := recorded.mono (fun _ _ _ => trivial)
  exact ⟨db, file, steps, server, started, unguarded, adds,
    (acknowledged_stored_iff unguarded).2 (Or.inl (by simp [empty]))⟩

/-- The first add on a new database is acknowledged before anything is in the file. -/
theorem acknowledged_unstored
    : ∃ db file steps server,
        main true .granted 3 none = some (db, file)
        ∧ RecordedRun 3 WritesComplete (startServer db file 4) steps server
        ∧ ∃ step ∈ steps, ¬ AcknowledgedStored step := by
  obtain ⟨db, file, steps, server, started, empty, recorded, step, taken, adds⟩ :=
    main_new_adds
  obtain ⟨⟨history, before⟩, -, result⟩ := recorded.step taken
  have short : (startServer db file 4).world.file.content.length
      ≤ headerSize + employeeSize * (startServer db file 4).world.db.header.count.toNat := by
    change file.content.length ≤ _
    rw [empty]
    exact Nat.zero_le _
  exact ⟨db, file, steps, server, started, recorded, step, taken,
    not_acknowledgedStored result adds (ahead_of_short (file_length_run before short))⟩

end LowlevelAcademy.Correctness
