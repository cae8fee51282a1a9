import LowlevelAcademy.Database.Loading
import LowlevelAcademy.Server.Traces

/-! The 16-bit record counter over whole runs: every accepted add makes it one larger and fills
the last element of the array, and the add that it cannot count stops the server.
-/

namespace LowlevelAcademy.Correctness

open LowlevelAcademy.Foundations
open LowlevelAcademy.Database
open LowlevelAcademy.Server

/-- The value of the live counter. -/
abbrev counted (server : State) : Nat := server.world.db.header.count.toNat

/-- The step reads an add request whose string describes a record. -/
def AsksToAdd (server : State) (env : Env) : Prop :=
  ∃ slot chunk,
    server.reading = some slot
    ∧ env.read = some chunk
    ∧ (server.world.receive slot chunk).request slot = .add
    ∧ EndsInside ((server.world.receive slot chunk).addMemory slot)
    ∧ acceptable ((server.world.receive slot chunk).addRequest slot)

/-- The counter does not wrap in a step: an accepted add makes it exactly one larger, and its
record is the one at the old counter in an array of the new counter's size. An add that it
cannot count is rejected with `MSG_ERROR` and changes neither database nor file.
-/
structure CounterSound (dbfd : Nat) (server : State) (env : Env) : Prop where
  increments
    : ∀ next actions slot request,
        pollLoopStep env dbfd server = .ok (next, actions)
        → .added slot request .success ∈ actions
        → counted next = counted server + 1
          ∧ ∃ employees,
              next.world.db.employees = some employees
              ∧ employees.length = counted next
              ∧ employees[counted server]? = some (employeeOf request)
  rejects
    : AsksToAdd server env
      → counted server = 65535
      → ∃ next slot state buffer request message,
          pollLoopStep env dbfd server
            = .ok (next, [.handled slot state buffer, .added slot request .error,
                .sent slot message])
          ∧ wireType message = MsgType.error.code
          ∧ next.world.db = server.world.db
          ∧ next.world.file = server.world.file

variable {env : Env} {dbfd : Nat} {server next : State} {actions : List Action}
variable {world after : World} {slot : Slot} {memory : List UInt8}

/-- Accepting an add string counts one record more, the one that the string describes. -/
theorem accepts_counted (accepts : Accepts env dbfd world memory after)
    : after.db.header.count.toNat = world.db.header.count.toNat + 1
      ∧ ∃ employees,
          after.db.employees = some employees
          ∧ employees.length = after.db.header.count.toNat
          ∧ employees[world.db.header.count.toNat]? = some (employeeOf (cString nul memory)) := by
  obtain ⟨earlier, holds, old⟩ := accepts.last
  have count := holds.count
  rw [List.length_append, List.length_singleton] at count
  exact ⟨by omega, _, holds.employees, holds.count.symm, by simp [old]⟩

/-- A step that accepts nothing leaves the counter as it is; an accepted add counts. -/
theorem counted_step (result : pollLoopStep env dbfd server = .ok (next, actions))
    : counted next = counted server + (acceptedRequests actions).length := by
  rcases (pollLoopStep_turn result).database with ⟨sameDb, -, none⟩ | ⟨memory, accepts, one, -⟩
  · rw [counted, sameDb, none]
    rfl
  · rw [one]
    exact (accepts_counted accepts).1

/-- With a full counter an add request that describes a record stops the server: the counter
wraps to zero, so `realloc` returns no array, and the record is written through NULL.
-/
theorem pollLoopStep_full (asks : AsksToAdd server env) (full : counted server = 65535)
    : pollLoopStep env dbfd server = .error .nullArray := by
  obtain ⟨slot, chunk, reading, received, asked, ends, accepted⟩ := asks
  let world := server.world.receive slot chunk
  have wraps (employee : Employee)
      : appendEmployee env.realloc world.db employee = .error .nullArray := by
    have zero : (world.db.header.count + 1).toNat = 0 := by
      rw [UInt16.toNat_add]
      change (counted server + 1) % 2 ^ 16 = 0
      rw [full]
    simp [appendEmployee, realloc, zero]
  obtain ⟨edited, scanned⟩ :=
    addEmployee_request (addEmployee_endsInside env.realloc world.db ends)
  rw [addResult, if_pos accepted, wraps] at scanned
  refine pollLoopStep_halt reading received ?_
  rw [handleClientFsm_add_eq env dbfd world slot asked, handleAdd, memoryFrom_swapHeader]
  have sameDb : (world.setClient slot .msg (world.clients slot).buffer.swapHeader).db = world.db :=
    rfl
  rw [sameDb, scanned]

/-- In every run the counter is its first value and one more for each accepted add, and in the
state reached it stays sound for whatever the system calls return next, if and only if that is
no record to add while the counter is full.
-/
theorem counter_sound_iff {db : Db} {file : OpenFile UInt8} {listenFd : Int32}
    {history : List (List Action)}
    (run : Run (Step dbfd fun _ _ => True) (startServer db file listenFd) history server)
    (env : Env)
    : counted server = db.header.count.toNat + (acceptedRequests history.flatten).length
      ∧ (CounterSound dbfd server env ↔ ¬ (AsksToAdd server env ∧ counted server = 65535)) := by
  constructor
  · refine run.invariant
      (motive := fun history server =>
        counted server = db.header.count.toNat + (acceptedRequests history.flatten).length)
      rfl ?_
    rintro history server actions next kept ⟨env, -, result⟩
    rw [counted_step result, kept]
    simp [Nat.add_assoc]
  constructor
  · rintro sound ⟨asks, full⟩
    obtain ⟨next, slot, state, buffer, request, message, result, -⟩ := sound.rejects asks full
    rw [pollLoopStep_full asks full] at result
    cases result
  · intro room
    refine ⟨?_, fun asks full => absurd ⟨asks, full⟩ room⟩
    intro next actions slot request result added
    rcases (pollLoopStep_turn result).database with ⟨-, -, none⟩ | ⟨memory, accepts, one, -⟩
    · have accepted : request ∈ acceptedRequests actions :=
        List.mem_filterMap.mpr ⟨_, added, rfl⟩
      rw [none] at accepted
      cases accepted
    · have accepted : request ∈ acceptedRequests actions :=
        List.mem_filterMap.mpr ⟨_, added, rfl⟩
      rw [one] at accepted
      obtain rfl := List.mem_singleton.mp accepted
      exact accepts_counted accepts

/-- After the first add to an empty database the counter is one, and it is still sound. -/
theorem counter_sound_iff_one
    : ∃ history server,
        Run (Step 3 fun _ _ => True) (startServer ⟨headerOf 0, some []⟩ (.opened []) 4) history
          server
        ∧ counted server = 1
        ∧ ∀ env, CounterSound 3 server env := by
  have empty : Db.Holds ⟨headerOf 0, some []⟩ [] := ⟨rfl, rfl⟩
  obtain ⟨history, server, -, -, run, one, -⟩ :=
    first_add_run 3 (.opened []) 4 empty (by decide)
      (show nul ∉ [97, 44, 98, 44, 49] by decide) (by decide) (by decide)
  have guarded : Run (Step 3 fun _ _ => True) _ history server :=
    run_of_orderly (fun _ _ _ => trivial) run
  have total := (counter_sound_iff guarded (clientEnv none none)).1
  rw [one] at total
  refine ⟨history, server, guarded, total, fun env => ?_⟩
  exact (counter_sound_iff guarded env).2.mpr fun ⟨_, full⟩ =>
    absurd (total.symm.trans full) (by decide)

/-- A database with as many records as the counter can count. -/
def fullRoster : Roster :=
  ⟨List.replicate 65535 (employeeOf []), le_of_eq List.length_replicate⟩

/-- Its file is accepted. When a client then adds the record `a,b,1`, the server stops instead
of rejecting the request.
-/
theorem counter_unsound
    : ∃ db file history server env,
        loadDatabase 3 fullRoster.encode = .ok (db, file)
        ∧ Run (Step 3 fun _ _ => True) (startServer db file 4) history server
        ∧ ¬ CounterSound 3 server env := by
  -- the file is its own encoding, so it is loaded with a full counter
  have stored := storedDb_encode_append fullRoster []
  rw [List.append_nil] at stored
  have loadable := (loadable_encode_append fullRoster []).mpr rfl
  rw [List.append_nil] at loadable
  obtain ⟨file, loaded⟩ :=
    (loadDatabase_ok_iff (show (0 : Int) ≤ 3 by decide) fullRoster.encode _).mpr ⟨loadable, rfl⟩
  have full : (storedDb fullRoster.encode).header.count.toNat = 65535 := by
    rw [stored]
    simp only
    rw [headerOf_count fullRoster.bound, fullRoster, List.length_replicate]
  generalize storedDb fullRoster.encode = db at loaded full
  obtain ⟨history, server, run, reading, state, rfl, -⟩ := first_client_reads 3 db file 4
  obtain ⟨terminated, string⟩ := cString_addData
    (show nul ∉ [97, 44, 98, 44, 49] by decide) (by decide)
  obtain ⟨asked, rest, own⟩ :=
    World.receive_add state (clearedBuffer.take 2) terminated
  rw [string] at own
  let chunk := (ClientMessage.add (clearedBuffer.take 2) (addData [97, 44, 98, 44, 49])).chunk
  have asks : AsksToAdd server (clientEnv (some chunk) none) := by
    refine ⟨0, chunk, reading, rfl, asked, EndsInside.append (Or.inl (by rw [own]; simp)) _, ?_⟩
    have request : (server.world.receive 0 chunk).addRequest 0 = [97, 44, 98, 44, 49] := by
      rw [World.addRequest, own, List.append_assoc]
      exact cString_append (by decide)
    rw [request]
    decide
  refine ⟨_, file, history, server, clientEnv (some chunk) none, loaded,
    run_of_orderly (fun _ _ _ => trivial) run, fun sound => ?_⟩
  obtain ⟨next, slot, state, buffer, request, message, result, -⟩ := sound.rejects asks full
  rw [pollLoopStep_full asks full] at result
  cases result

end LowlevelAcademy.Correctness
