import LowlevelAcademy.Client.Listing
import LowlevelAcademy.Database.Printing
import LowlevelAcademy.Server.Disk
import LowlevelAcademy.Server.Traces

/-! Stored text over whole runs: when every record in memory and in the file has a terminator in
its name and in its address, and what printing it shows then.
-/

namespace LowlevelAcademy.Correctness

open LowlevelAcademy.Foundations
open LowlevelAcademy.Database
open LowlevelAcademy.Server
open LowlevelAcademy.Client

/-- The first two fields of an add string that is accepted leave room for a terminator. -/
def FieldsFit (request : List UInt8) : Prop :=
  ∀ name address hours more,
    fields request = name :: address :: hours :: more
    → atoi hours ≠ 0
    → name.length ≤ 255 ∧ address.length ≤ 255

/-- So do those of every add request that is read. -/
def FittingAdds : Guard := fun server env =>
  ∀ slot ∈ server.reading, ∀ chunk ∈ env.read,
    (server.world.receive slot chunk).request slot = .add
      → FieldsFit ((server.world.receive slot chunk).addRequest slot)

/-- The database in memory holds records whose fields are all terminated. -/
def TerminatedRecords (world : World) : Prop :=
  ∃ records, world.db.Holds records ∧ ∀ employee ∈ records, TerminatedFields employee

/-- The records in a file, as many as its header counts. -/
def fileRecords (content : List UInt8) : List Employee :=
  storedEmployees (storedHeader content).count.toNat content

/-- What reading the records shows: `list_employees` prints the fields of each one by one and
examines nothing outside them, and so does the client with each record of a list reply.
-/
structure ShowsText (dbfd : Nat) (world : World) (records : List Employee) : Prop where
  printed
    : ∀ behind, Database.listEmployees behind world.db = .ok (records.mapIdx listedEmployee)
  inside
    : ∀ i employee behind,
        records[i]? = some employee
        → ShowsFields employee (recordsFrom world.db.employees i ++ behind)
  listed
    : ∀ env slot,
        world.request slot = .list
        → ∃ next header,
            handleClientFsm env dbfd world slot
              = .ok (next, (header :: records.map listEntry).map (.sent slot))
  received
    : ∀ employee ∈ records, ∀ buffer : Buffer, ∀ read : ReadOutcome employeeSize,
        read.bytes = listEntry employee
        → ShowsFields employee ((readEntry buffer read).toList.drop protoHeaderSize)

/-- An accepted string makes a record with terminated fields exactly when its fields fit. -/
theorem terminated_employeeOf_iff {request : List UInt8} (clean : nul ∉ request)
    (accepted : acceptable request)
    : TerminatedFields (employeeOf request) ↔ FieldsFit request := by
  rw [acceptable] at accepted
  split at accepted
  next name address hours more found =>
    have cleanPiece : ∀ piece ∈ fields request, nul ∉ piece :=
      fun piece member inside => clean (mem_of_mem_tokens member inside)
    have nameText := cString_of_clean (cleanPiece name (by simp [found]))
    have addressText := cString_of_clean (cleanPiece address (by simp [found]))
    have record : employeeOf request = newEmployee name address hours := by
      rw [employeeOf, found]
    have nonzero : atoi hours ≠ 0 := by simpa using accepted
    constructor
    · rintro ⟨nameEnds, addressEnds⟩
      rw [record] at nameEnds addressEnds
      have nameFits := nul_mem_strncpy_iff.mp nameEnds
      have addressFits := nul_mem_strncpy_iff.mp addressEnds
      rw [nameText] at nameFits
      rw [addressText] at addressFits
      intro name' address' hours' more' found' _
      obtain ⟨rfl, rfl, -⟩ : name = name' ∧ address = address' ∧ _ := by
        simpa [found] using found'
      omega
    · intro fit
      obtain ⟨nameFits, addressFits⟩ := fit name address hours more found nonzero
      rw [record]
      refine ⟨nul_mem_strncpy_iff.mpr ?_, nul_mem_strncpy_iff.mpr ?_⟩
      · rw [nameText]
        omega
      · rw [addressText]
        omega
  · cases accepted

/-- A string that is not accepted has nothing to fit. -/
theorem fieldsFit_of_rejected {request : List UInt8} (rejected : ¬ acceptable request)
    : FieldsFit request := by
  intro name address hours more found nonzero
  exact absurd (by simp [acceptable, found, nonzero]) rejected

variable {dbfd : Nat} {env : Env} {server next : State} {actions : List Action}
variable {roster : Roster}

/-- The add requests of a step fit exactly when those it accepts do. -/
theorem fittingAdds_iff (result : pollLoopStep env dbfd server = .ok (next, actions))
    : FittingAdds server env ↔ ∀ request ∈ acceptedRequests actions, FieldsFit request := by
  constructor
  · intro fitting request member
    have turn := pollLoopStep_turn result
    generalize next.world = world at turn
    cases turn with
    | idle | refused | accepted | disconnected => simp [acceptedRequests] at member
    | @handled slot chunk _ later reading received outcome =>
        rw [acceptedRequests_handled] at member
        rcases outcome.database with ⟨-, -, none⟩ | ⟨asked, one, -⟩
        · simp [none] at member
        · rw [one, List.mem_singleton] at member
          rw [member]
          exact fitting slot reading chunk received asked
  · intro fitting slot reading chunk received asked
    obtain ⟨later, handled, rfl⟩ := pollLoopStep_message result reading received
    obtain ⟨buffer, edited, ⟨scanned, -, -, -⟩ | ⟨db, saved, scanned, -, -, -, rfl⟩⟩ :=
      handleClientFsm_add_cases asked handled
    · have rejected := (acceptable_of_added scanned).1
      exact fieldsFit_of_rejected (by simpa using rejected)
    · exact fitting _ (by simp [acceptedRequests])

/-- After a step that leaves only terminated records, the requests it accepted fit. -/
theorem fittingAdds_of_terminated (result : pollLoopStep env dbfd server = .ok (next, actions))
    (terminated : TerminatedRecords next.world)
    : FittingAdds server env := by
  rw [fittingAdds_iff result]
  intro request member
  rcases (pollLoopStep_turn result).database with ⟨-, -, none⟩ | ⟨memory, accepts, one, -⟩
  · simp [none] at member
  rw [one, List.mem_singleton] at member
  obtain ⟨earlier, holds, -⟩ := accepts.last
  obtain ⟨records, sameHolds, all⟩ := terminated
  have same : records = earlier ++ [employeeOf (cString nul memory)] :=
    Option.some.inj (sameHolds.employees.symm.trans holds.employees)
  have last := all (employeeOf (cString nul memory)) (by simp [same])
  by_cases accepted : acceptable request
  · rw [member] at accepted ⊢
    exact (terminated_employeeOf_iff (nul_not_mem_cString nul memory) accepted).mp last
  · exact fieldsFit_of_rejected accepted

/-- The records of a file that stores a roster are those of the roster. -/
theorem fileRecords_encode_append (roster : Roster) (rest : List UInt8)
    : fileRecords (roster.encode ++ rest) = roster.records :=
  Option.some.inj (congrArg Db.employees (storedDb_encode_append roster rest))

/-- A step whose add requests fit adds only terminated records to a live database, and complete
writes put only such records into the file.
-/
theorem text_step (result : pollLoopStep env dbfd server = .ok (next, actions))
    (fitting : FittingAdds server env) (live : server.world.db.Represents roster)
    (terminated : ∀ employee ∈ roster.records, TerminatedFields employee)
    : ∃ extended : Roster,
        next.world.db.Represents extended
        ∧ (∀ employee ∈ extended.records, TerminatedFields employee)
        ∧ ((∀ i, env.writes i = .complete)
          → (∀ employee ∈ fileRecords server.world.file.content, TerminatedFields employee)
          → ∀ employee ∈ fileRecords next.world.file.content, TerminatedFields employee) := by
  rcases (pollLoopStep_turn result).database with
    ⟨sameDb, sameFile, -⟩ | ⟨memory, accepts, one, -⟩
  · rw [sameDb, sameFile]
    exact ⟨roster, live, terminated, fun _ stored => stored⟩
  · obtain ⟨extended, ⟨employee, more⟩, represents, -, content⟩ := accepts.represents live
    obtain ⟨earlier, holds, -⟩ := accepts.last
    have last : employee = employeeOf (cString nul memory) := by
      have same : extended.records = earlier ++ [employeeOf (cString nul memory)] :=
        Option.some.inj (represents.holds.employees.symm.trans holds.employees)
      rw [more] at same
      exact (List.append_inj' same rfl).2 |> List.singleton_inj.mp
    have ends : TerminatedFields employee := by
      have fit := (fittingAdds_iff result).mp fitting (cString nul memory) (by simp [one])
      obtain ⟨db, edited, saved, scanned, -⟩ := accepts
      have accepted := (acceptable_of_added scanned).1.mp rfl
      rw [last]
      exact (terminated_employeeOf_iff (nul_not_mem_cString nul memory) accepted).mpr fit
    have all : ∀ employee ∈ extended.records, TerminatedFields employee := by
      intro other member
      rw [more] at member
      rcases List.mem_append.mp member with old | new
      · exact terminated other old
      · rw [List.mem_singleton.mp new]
        exact ends
    refine ⟨extended, represents, all, fun complete _ => ?_⟩
    rw [content complete, fileRecords_encode_append]
    exact all

/-- With terminated records, reading them shows their fields. -/
theorem showsText_of_terminated {world : World} (live : world.db.Represents roster)
    (terminated : ∀ employee ∈ roster.records, TerminatedFields employee)
    : ShowsText dbfd world roster.records := by
  refine ⟨fun behind => ?_, fun i employee behind found => ?_, fun env slot asked => ?_, ?_⟩
  · have all := listFrom_terminated behind [] roster.records fun employee member =>
      ⟨(terminated employee member).name, (terminated employee member).address⟩
    simp only [List.nil_append, List.length_nil, Nat.zero_add] at all
    rw [Database.listEmployees, live.holds.employees, live.holds.count, all]
  · obtain ⟨name, address⟩ := terminated employee (List.mem_of_getElem? found)
    rw [live.holds.employees, recordsFrom_eq found]
    simp only [List.append_assoc]
    exact showsFields_of_terminated employee.name.toList_length employee.address.toList_length
      name address rfl rfl
  · obtain ⟨buffer, handled⟩ := handleClientFsm_list env dbfd world slot asked live.holds
    exact ⟨_, _, handled⟩
  · intro employee member buffer read whole
    obtain ⟨name, address⟩ := terminated employee member
    rw [drop_readEntry buffer read whole]
    exact showsFields_of_terminated (List.Vector.toList_length _) (List.Vector.toList_length _)
      (nul_mem_copied name) (nul_mem_copied address) (cString_copied _) (cString_copied _)

/-- What a run keeps whose add requests all fit. -/
private structure TextKept (steps : List StepRecord) (world : World) (roster : Roster) : Prop where
  live : world.db.Represents roster
  memory : ∀ employee ∈ roster.records, TerminatedFields employee
  passed : ∀ step ∈ steps, TerminatedRecords step.after.world
  file
    : (∀ step ∈ steps, WritesComplete step.before step.env)
      → ∀ employee ∈ fileRecords world.file.content, TerminatedFields employee

/-- Every such run keeps it. -/
private theorem textKept_run {guard : Guard} {steps : List StepRecord}
    (live : server.world.db.Represents roster)
    (terminated : ∀ employee ∈ roster.records, TerminatedFields employee)
    (stored : ∀ employee ∈ fileRecords server.world.file.content, TerminatedFields employee)
    (run : RecordedRun dbfd guard server steps next)
    (fitting : ∀ step ∈ steps, FittingAdds step.before step.env)
    : ∃ current, TextKept steps next.world current := by
  induction run with
  | nil => exact ⟨roster, live, terminated, by simp, fun _ => stored⟩
  | @snoc earlier state step after before last ih =>
      obtain ⟨current, kept⟩ := ih fun step member => fitting step (List.mem_append_left _ member)
      obtain ⟨rfl, rfl, -, result⟩ := last
      obtain ⟨extended, represents, all, file⟩ :=
        text_step result (fitting step (by simp)) kept.live kept.memory
      refine ⟨extended, represents, all, fun other member => ?_, fun complete => ?_⟩
      · rcases List.mem_append.mp member with old | new
        · exact kept.passed other old
        · rw [List.mem_singleton.mp new]
          exact ⟨_, represents.holds, all⟩
      · refine file (complete step (by simp)) (kept.file fun other member => ?_)
        exact complete other (List.mem_append_left _ member)

/-- From a database with terminated records, a run leaves only such records in memory, in every
state, exactly when the fields of the add requests it reads fit. Then its last state shows the
text of its records; and when all its writes are complete, the file keeps terminated records,
too.
-/
theorem text_stays_terminated_iff {guard : Guard} {steps : List StepRecord}
    (live : server.world.db.Represents roster)
    (terminated : ∀ employee ∈ roster.records, TerminatedFields employee)
    (stored : ∀ employee ∈ fileRecords server.world.file.content, TerminatedFields employee)
    (run : RecordedRun dbfd guard server steps next)
    : ((∀ step ∈ steps, TerminatedRecords step.after.world)
        ↔ ∀ step ∈ steps, FittingAdds step.before step.env)
      ∧ ((∀ step ∈ steps, FittingAdds step.before step.env)
        → ∃ current : Roster,
            next.world.db.Represents current
            ∧ (∀ employee ∈ current.records, TerminatedFields employee)
            ∧ ShowsText dbfd next.world current.records
            ∧ ((∀ step ∈ steps, WritesComplete step.before step.env)
              → ∀ employee ∈ fileRecords next.world.file.content, TerminatedFields employee)) := by
  refine ⟨⟨fun records step member => ?_, fun fitting => ?_⟩, fun fitting => ?_⟩
  · obtain ⟨-, -, result⟩ := RecordedRun.step run member
    exact fittingAdds_of_terminated result (records step member)
  · obtain ⟨current, kept⟩ := textKept_run live terminated stored run fitting
    exact kept.passed
  · obtain ⟨current, kept⟩ := textKept_run live terminated stored run fitting
    exact ⟨current, kept.live, kept.memory, showsText_of_terminated kept.live kept.memory,
      kept.file⟩

/-- The requests that a recorded run accepts are those that its steps accept. -/
private theorem mem_accepted_iff {steps : List StepRecord} {request : List UInt8}
    : request ∈ acceptedRequests (steps.map (·.actions)).flatten
      ↔ ∃ step ∈ steps, request ∈ acceptedRequests step.actions := by
  induction steps with
  | nil => simp [acceptedRequests]
  | cons step later ih => simp [ih]

/-- A server with no records in memory and in its file. -/
def emptyServer : State :=
  startServer ⟨headerOf 0, some []⟩ (.opened Roster.empty.encode) 4

/-- From there a run can add a record. -/
private theorem recorded_add_run {request : List UInt8} (clean : nul ∉ request)
    (short : request.length < 1024) (accepted : acceptable request)
    : ∃ steps next,
        RecordedRun 3 Orderly emptyServer steps next
        ∧ acceptedRequests (steps.map (·.actions)).flatten = [request] := by
  obtain ⟨history, next, -, -, run, one, -⟩ :=
    first_add_run 3 (.opened Roster.empty.encode) 4
      (show Db.Holds ⟨headerOf 0, some []⟩ [] from ⟨rfl, rfl⟩) (by decide) clean short accepted
  obtain ⟨steps, rfl, recorded⟩ := recordedRun_of_run run
  exact ⟨steps, next, recorded, one⟩

/-- The add string with a name of 256 letters. -/
def longName : List UInt8 := List.replicate 256 97 ++ [44, 98, 44, 49]

private theorem longName_made : MadeOf longName (List.replicate 256 97) [98] 1 :=
  ⟨rfl, ⟨by decide, by decide⟩, by decide, by decide⟩

/-- Adding a name of 256 letters to an empty database leaves a record without a terminator in
its name.
-/
theorem text_runs_on
    : ∃ steps next,
        RecordedRun 3 Orderly emptyServer steps next
        ∧ acceptedRequests (steps.map (·.actions)).flatten = [longName]
        ∧ ∃ step ∈ steps, ¬ TerminatedRecords step.after.world := by
  have made := longName_made
  have clean : nul ∉ longName := by
    intro member
    rcases List.mem_append.mp member with letter | rest
    · exact absurd (List.eq_of_mem_replicate letter) (by decide)
    · exact absurd rest (by decide)
  have size : longName.length = 260 := by
    rw [longName, List.length_append, List.length_replicate]
    rfl
  obtain ⟨steps, next, run, one⟩ := recorded_add_run clean (by omega) made.acceptable
  have member : longName ∈ acceptedRequests (steps.map (·.actions)).flatten := by
    rw [one]
    exact List.mem_singleton_self _
  obtain ⟨step, taken, accepts⟩ := mem_accepted_iff.mp member
  refine ⟨steps, next, run, one, step, taken, fun terminated => ?_⟩
  obtain ⟨-, -, result⟩ := RecordedRun.step run taken
  have fitting := fittingAdds_of_terminated result terminated
  have fit := (fittingAdds_iff result).mp fitting _ accepts
  have short := (fit _ _ _ _ made.fields (Int32.ne_of_lt made.atoi_hours.2).symm).1
  rw [List.length_replicate] at short
  exact absurd short (by decide)

/-- Adding the record `a,b,1` to an empty database. -/
theorem text_stays_terminated_iff_one
    : ∃ steps next,
        RecordedRun 3 Orderly emptyServer steps next
        ∧ acceptedRequests (steps.map (·.actions)).flatten = [[97, 44, 98, 44, 49]]
        ∧ ∀ step ∈ steps, TerminatedRecords step.after.world := by
  obtain ⟨steps, next, run, one⟩ :=
    recorded_add_run (show nul ∉ [97, 44, 98, 44, 49] by decide) (by decide) (by decide)
  have live : emptyServer.world.db.Represents Roster.empty := ⟨⟨rfl, rfl⟩, rfl, rfl⟩
  have stored : fileRecords emptyServer.world.file.content = [] := by
    have empty := fileRecords_encode_append Roster.empty []
    rwa [List.append_nil] at empty
  have kept := text_stays_terminated_iff live (fun _ member => by cases member)
    (fun _ member => by rw [stored] at member; cases member) run
  refine ⟨steps, next, run, one, kept.1.mpr fun step taken => ?_⟩
  obtain ⟨-, -, result⟩ := RecordedRun.step run taken
  rw [fittingAdds_iff result]
  intro request accepts
  have only : request ∈ [[97, 44, 98, 44, 49]] := by
    rw [← one]
    exact mem_accepted_iff.mpr ⟨step, taken, accepts⟩
  rw [List.mem_singleton.mp only]
  have found : fields [97, 44, 98, 44, 49] = [[97], [98], [49]] := by decide
  intro name address hours more split _
  rw [found] at split
  obtain ⟨rfl, rfl, -⟩ : [97] = name ∧ [98] = address ∧ _ := by simpa using split
  decide

end LowlevelAcademy.Correctness
