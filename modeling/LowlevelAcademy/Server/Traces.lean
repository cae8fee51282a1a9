import LowlevelAcademy.Server.Progress

/-! Runs of the server that record each step with the state before it and what its system
calls returned, and what a step does that handles a message.
-/

namespace LowlevelAcademy.Server

open LowlevelAcademy.Foundations
open LowlevelAcademy.Database

/-- One step of the server with everything it depends on and leads to. -/
structure StepRecord where
  before : State
  env : Env
  actions : List Action
  after : State

/-- A step that is recorded as it was taken. -/
def RecordedStep (dbfd : Nat) (guard : Guard) (server : State) (step : StepRecord)
    (next : State)
    : Prop :=
  step.before = server
  ∧ step.after = next
  ∧ guard server step.env
  ∧ pollLoopStep step.env dbfd server = .ok (next, step.actions)

/-- A recorded run of the server. -/
abbrev RecordedRun (dbfd : Nat) (guard : Guard) (start : State) (steps : List StepRecord)
    (server : State)
    : Prop :=
  Run (RecordedStep dbfd guard) start steps server

variable {dbfd : Nat} {guard : Guard} {start server next : State} {steps : List StepRecord}

/-- A recorded run is a run with the actions as labels. -/
theorem RecordedRun.run (recorded : RecordedRun dbfd guard start steps server)
    : Run (Step dbfd guard) start (steps.map (·.actions)) server := by
  induction recorded with
  | nil => exact .nil
  | snoc _ last ih =>
      obtain ⟨-, -, allowed, result⟩ := last
      rw [List.map_append]
      exact ih.snoc ⟨_, allowed, result⟩

/-- A recorded run meets every guard that its own guard implies. -/
theorem RecordedRun.mono {guard' : Guard}
    (allowed : ∀ state env, guard state env → guard' state env)
    (recorded : RecordedRun dbfd guard start steps server)
    : RecordedRun dbfd guard' start steps server :=
  Run.mono (fun _ _ _ ⟨before, after, met, result⟩ => ⟨before, after, allowed _ _ met, result⟩)
    recorded

/-- It meets a guard that each of its steps meets. -/
theorem RecordedRun.guarded {guard' : Guard}
    (recorded : RecordedRun dbfd guard start steps server)
    (met : ∀ step ∈ steps, guard' step.before step.env)
    : RecordedRun dbfd guard' start steps server := by
  induction recorded with
  | nil => exact .nil
  | @snoc earlier state label next _ last ih =>
      obtain ⟨before, after, -, result⟩ := last
      exact (ih fun step taken => met step (List.mem_append_left _ taken)).snoc
        ⟨before, after, before ▸ met label (by simp), result⟩

/-- Every run can be recorded. -/
theorem recordedRun_of_run {history : List (List Action)}
    (run : Run (Step dbfd guard) start history server)
    : ∃ steps, steps.map (·.actions) = history ∧ RecordedRun dbfd guard start steps server := by
  induction run with
  | nil => exact ⟨[], rfl, .nil⟩
  | @snoc history state actions next _ last ih =>
      obtain ⟨steps, rfl, recorded⟩ := ih
      obtain ⟨env, allowed, result⟩ := last
      exact ⟨steps ++ [⟨state, env, actions, next⟩], by simp,
        recorded.snoc ⟨rfl, rfl, allowed, result⟩⟩

/-- Each step of a recorded run was taken from a state that a run leads to. -/
theorem RecordedRun.step (recorded : RecordedRun dbfd guard start steps server)
    {step : StepRecord} (taken : step ∈ steps)
    : (∃ history, Run (Step dbfd guard) start history step.before)
      ∧ guard step.before step.env
      ∧ pollLoopStep step.env dbfd step.before = .ok (step.after, step.actions) := by
  induction recorded with
  | nil => cases taken
  | @snoc earlier state label next before last ih =>
      rcases List.mem_append.mp taken with old | new
      · exact ih old
      · obtain rfl := List.mem_singleton.mp new
        obtain ⟨rfl, rfl, allowed, result⟩ := last
        exact ⟨⟨_, RecordedRun.run before⟩, allowed, result⟩

-----------------------------------------------------------------------------------------
-- Steps that handle a message
-----------------------------------------------------------------------------------------

variable {env : Env} {slot : Slot} {chunk : Chunk} {actions : List Action}

/-- A step that reads from a client serves it and goes on with the next entry. -/
theorem pollLoopStep_reading (env : Env) (dbfd : Nat) (reading : server.reading = some slot)
    : ∃ position,
        pollLoopStep env dbfd server
          = (serveClient env dbfd server.world server.nfds slot).map fun (world, nfds, actions) =>
              (⟨world, server.fds, nfds, position⟩, actions) := by
  obtain ⟨i, nEvents, inside, position, more, readable, found⟩ :=
    State.scan_of_reading reading
  refine ⟨.scan (i + 1) (nEvents - 1), ?_⟩
  rw [pollLoopStep, position]
  simp only [scanStep]
  rw [if_pos more, dif_pos inside, if_pos readable, found]
  cases served : serveClient env dbfd server.world server.nfds slot <;>
    simp only [served, Except.map]

/-- A step that reads from a client hands what it read to the handler. -/
theorem pollLoopStep_message (result : pollLoopStep env dbfd server = .ok (next, actions))
    (reading : server.reading = some slot) (received : env.read = some chunk)
    : ∃ later,
        handleClientFsm env dbfd (server.world.receive slot chunk) slot = .ok (next.world, later)
        ∧ actions
          = .handled slot (server.world.clients slot).state
              ((server.world.receive slot chunk).clients slot).buffer :: later := by
  obtain ⟨position, step⟩ := pollLoopStep_reading env dbfd reading
  rw [result] at step
  simp only [serveClient, received] at step
  cases handled : handleClientFsm env dbfd (server.world.receive slot chunk) slot with
  | error halt => simp [handled, Except.map] at step
  | ok outcome =>
      simp only [handled, Except.map, World.receive_state] at step
      obtain ⟨rfl, rfl⟩ := Prod.mk.inj (Except.ok.inj step)
      exact ⟨outcome.2, rfl, rfl⟩

/-- Where the handler stops on what was read, the step has no result. -/
theorem pollLoopStep_halt {halt : Halt} (reading : server.reading = some slot)
    (received : env.read = some chunk)
    (stops : handleClientFsm env dbfd (server.world.receive slot chunk) slot = .error halt)
    : pollLoopStep env dbfd server = .error halt := by
  obtain ⟨position, step⟩ := pollLoopStep_reading env dbfd reading
  rw [step]
  simp only [serveClient, received, stops]
  rfl

/-- What a step does to the world, by whether it reads from a client: without one nothing
happens or a connection comes in; otherwise the client is disconnected or its data is handled.
-/
theorem pollLoopStep_event (result : pollLoopStep env dbfd server = .ok (next, actions))
    : (server.reading = none
        ∧ ((next.world = server.world ∧ (actions = [] ∨ actions = [.refused env.accept]))
          ∨ ∃ slot,
              (server.world.clients slot).fd = -1
              ∧ env.accept ≠ -1
              ∧ next.world = server.world.connect slot env.accept
              ∧ actions = [.accepted slot env.accept]))
      ∨ ∃ slot,
          server.reading = some slot
          ∧ ((env.read = none
              ∧ next.world = server.world.disconnect slot
              ∧ actions = [.disconnected slot])
            ∨ ∃ chunk later,
                env.read = some chunk
                ∧ handleClientFsm env dbfd (server.world.receive slot chunk) slot
                  = .ok (next.world, later)
                ∧ actions
                  = .handled slot (server.world.clients slot).state
                      ((server.world.receive slot chunk).clients slot).buffer :: later) := by
  cases reading : server.reading with
  | none =>
      refine Or.inl ⟨rfl, ?_⟩
      have turn := pollLoopStep_turn result
      generalize next.world = world at turn ⊢
      cases turn with
      | idle => exact Or.inl ⟨rfl, Or.inl rfl⟩
      | refused => exact Or.inl ⟨rfl, Or.inr rfl⟩
      | accepted free valid => exact Or.inr ⟨_, findFreeSlot_some free, valid, rfl, rfl⟩
      | disconnected impossible | handled impossible => cases reading.symm.trans impossible
  | some slot =>
      refine Or.inr ⟨slot, rfl, ?_⟩
      cases read : env.read with
      | none =>
          obtain ⟨position, step⟩ := pollLoopStep_reading env dbfd reading
          rw [result] at step
          simp only [serveClient, read, Except.map] at step
          obtain ⟨rfl, rfl⟩ := Prod.mk.inj (Except.ok.inj step)
          exact Or.inl ⟨rfl, rfl, rfl⟩
      | some chunk =>
          obtain ⟨later, handled, same⟩ := pollLoopStep_message result reading read
          exact Or.inr ⟨chunk, later, rfl, handled, same⟩

/-- The memory that an add request of a slot is tokenized in: the add string in the client's
buffer and the slots behind it.
-/
abbrev World.addMemory (world : World) (slot : Slot) : List UInt8 :=
  addString (world.message slot) ++ world.clients.following slot

/-- Handling an add request, wherever its string ends: it is rejected and answered with an
error, or accepted, answered and then saved.
-/
theorem handleClientFsm_add_cases {world after : World} (asked : world.request slot = .add)
    (result : handleClientFsm env dbfd world slot = .ok (after, actions))
    : ∃ buffer edited,
        (addEmployee env.realloc world.db (world.addMemory slot) = .ok ⟨.error, after.db, edited⟩
          ∧ after.db = world.db
          ∧ after.file = world.file
          ∧ actions
            = [.added slot (world.addRequest slot) .error, .sent slot (replyBytes buffer .error 0)])
        ∨ ∃ db saved,
            addEmployee env.realloc world.db (world.addMemory slot) = .ok ⟨.success, db, edited⟩
            ∧ outputFile env.writes dbfd world.file db = .ok saved
            ∧ after.db = saved.db
            ∧ after.file = saved.file
            ∧ actions
              = [.added slot (world.addRequest slot) .success,
                .sent slot (replyBytes buffer .employeeAddResp 0),
                .saved slot saved.written] := by
  rw [handleClientFsm_add_eq env dbfd world slot asked] at result
  simp only [handleAdd, memoryFrom_swapHeader] at result
  split at result
  · cases result
  next added scanned =>
  obtain ⟨_ | _, db, edited⟩ := added
  · simp only at result
    split at result
    · cases result
    next saved saving =>
    simp only [Except.ok.injEq, Prod.mk.injEq] at result
    obtain ⟨rfl, rfl⟩ := result
    have reply (source : Buffer)
        : (fsmReplyAdd source).2 = replyBytes source .employeeAddResp 0 :=
      replyHeader_sent source .employeeAddResp 0
    simp only [reply]
    exact ⟨_, edited, Or.inr ⟨db, saved, scanned, saving, rfl, rfl, rfl⟩⟩
  · simp only [Except.ok.injEq, Prod.mk.injEq] at result
    obtain ⟨rfl, rfl⟩ := result
    rcases addEmployee_cases scanned with ⟨-, same⟩ | ⟨impossible, -⟩
    · have reply (source : Buffer)
          : (fsmReplyAddError source).2 = replyBytes source .error 0 :=
        replyHeader_sent source .error 0
      simp only [reply]
      exact ⟨_, edited, Or.inl ⟨scanned, same, rfl, rfl⟩⟩
    · cases impossible

/-- The step reads an add request whose string `add_employee` accepts. -/
def AddsRecord (server : State) (env : Env) : Prop :=
  ∃ slot chunk,
    server.reading = some slot
    ∧ env.read = some chunk
    ∧ (server.world.receive slot chunk).request slot = .add
    ∧ acceptable ((server.world.receive slot chunk).addRequest slot)

/-- What such a step does: the record is added, the client is answered, and the file is saved.
-/
theorem pollLoopStep_adds (result : pollLoopStep env dbfd server = .ok (next, actions))
    (adds : AddsRecord server env)
    : ∃ slot state buffer request reply written memory,
        Accepts env dbfd server.world memory next.world
        ∧ actions
          = [.handled slot state buffer, .added slot request .success,
            .sent slot (replyBytes reply .employeeAddResp 0), .saved slot written] := by
  obtain ⟨slot, chunk, reading, received, asked, accepted⟩ := adds
  obtain ⟨later, handled, rfl⟩ := pollLoopStep_message result reading received
  obtain ⟨reply, edited,
      ⟨scanned, -⟩ | ⟨db, saved, scanned, saving, sameDb, sameFile, rfl⟩⟩ :=
    handleClientFsm_add_cases asked handled
  · cases (acceptable_of_added scanned).1.mpr accepted
  · exact ⟨slot, _, _, _, reply, saved.written, _,
      ⟨db, edited, saved, scanned, saving, sameDb, sameFile⟩, rfl⟩

/-- Every other step leaves the database and the file alone. -/
theorem pollLoopStep_adds_none (result : pollLoopStep env dbfd server = .ok (next, actions))
    (none : ¬ AddsRecord server env)
    : next.world.db = server.world.db
      ∧ next.world.file = server.world.file
      ∧ acceptedRequests actions = [] := by
  have turn := pollLoopStep_turn result
  generalize next.world = world at turn ⊢
  cases turn with
  | idle | refused | accepted | disconnected => exact ⟨rfl, rfl, by simp [acceptedRequests]⟩
  | handled reading received outcome =>
      rcases outcome.database with ⟨sameDb, sameFile, nothing⟩ | ⟨asked, -, accepts⟩
      · exact ⟨sameDb, sameFile, by simpa using nothing⟩
      · obtain ⟨db, edited, saved, scanned, -⟩ := accepts
        exact absurd ⟨_, _, reading, received, asked, (acceptable_of_added scanned).1.mp rfl⟩ none

/-- A run in which a request was accepted has a step that adds a record. -/
theorem RecordedRun.exists_adds (recorded : RecordedRun dbfd guard start steps server)
    (accepted : acceptedRequests (steps.map (·.actions)).flatten ≠ [])
    : ∃ step ∈ steps, AddsRecord step.before step.env := by
  by_contra none
  push Not at none
  refine accepted ?_
  rw [acceptedRequests, List.filterMap_flatten, List.flatten_eq_nil_iff]
  intro requests member
  rw [List.map_map, List.mem_map] at member
  obtain ⟨step, taken, rfl⟩ := member
  exact (pollLoopStep_adds_none (recorded.step taken).2.2 (none step taken)).2.2

/-- An add request whose string ends in memory, and whose record can be counted and stored, is
handled.
-/
theorem handleClientFsm_add_ok (asked : world.request slot = .add)
    (ends : EndsInside (world.addMemory slot))
    (room
      : acceptable (world.addRequest slot)
        → env.realloc ≠ none ∧ world.db.header.count.toNat < 65535)
    : ∃ result, handleClientFsm env dbfd world slot = .ok result := by
  obtain ⟨edited, scanned⟩ :=
    addEmployee_request (addEmployee_endsInside env.realloc world.db ends)
  have sameDb : (world.setClient slot .msg (world.clients slot).buffer.swapHeader).db = world.db :=
    rfl
  rw [handleClientFsm_add_eq env dbfd world slot asked, handleAdd, memoryFrom_swapHeader, sameDb,
    scanned, addResult]
  by_cases accepted : acceptable (world.addRequest slot)
  · obtain ⟨db, appended⟩ :=
      (appendEmployee_ok_iff (employeeOf (cString nul (world.addMemory slot)))).mpr (room accepted)
    obtain ⟨earlier, holds, -⟩ := appendEmployee_last appended
    obtain ⟨saved, saving, -⟩ :=
      outputFile_ok env.writes (Int.natCast_nonneg dbfd) world.file holds
    have sameFile (buffer : Buffer) : (world.setClient slot .msg buffer).file = world.file := rfl
    simp only [if_pos accepted, appended, sameFile, saving]
    exact ⟨_, rfl⟩
  · simp only [if_neg accepted]
    exact ⟨_, rfl⟩

end LowlevelAcademy.Server
