import LowlevelAcademy.Server.Startup

/-! Stopping and restarting: saving rewrites the file from its start and never shortens it, and
a new file gets its header with the first save only.
-/

namespace LowlevelAcademy.Correctness

open LowlevelAcademy.Foundations
open LowlevelAcademy.Database
open LowlevelAcademy.Server

variable {dbfd : Nat} {db : Db} {file : OpenFile UInt8} {listenFd : Int32}
variable {history : List (List Action)} {server : State}

/-- Wherever the server is stopped, it can start again with the live records. -/
def RestartLaw (dbfd : Nat) (db : Db) (file : OpenFile UInt8) : Prop :=
  ∀ listenFd history server,
    Run (Step dbfd WritesComplete) (startServer db file listenFd) history server
    → server.world.Reloads

/-- The first save of a database leaves what lies behind one more record. -/
private theorem first_save {roster extended : Roster} {employee : Employee}
    (records : extended.records = roster.records ++ [employee]) (content : List UInt8)
    : content.drop extended.encode.length = []
      ↔ content.length ≤ headerSize + employeeSize * (roster.records.length + 1) := by
  rw [List.drop_eq_nil_iff, Roster.encode_length, records, List.length_append,
    List.length_singleton]

/-- With at most one record's bytes behind the counted records, or with a full counter, the
server can always start again: until the first save nothing has changed, and the first save
covers the whole file.
-/
private theorem restarts_of_short {content : List UInt8}
    (loaded : loadDatabase dbfd content = .ok (db, file))
    (short
      : content.length ≤ headerSize + employeeSize * (db.header.count.toNat + 1)
        ∨ db.header.count.toNat = 65535)
    : RestartLaw dbfd db file := by
  have valid : (0 : Int) ≤ dbfd := Int.natCast_nonneg dbfd
  obtain ⟨loadable, stored⟩ := (loadDatabase_ok_iff valid content db).mp ⟨file, loaded⟩
  obtain ⟨roster, live⟩ := loadable.represents
  rw [← stored] at live
  have sameContent := loadDatabase_content loaded
  intro listenFd history server run
  have kept := run.stateInvariant
    (motive := fun server =>
      (server.world.db = db ∧ server.world.file.content = content)
      ∨ ∃ roster, server.world.Stores roster [])
    (Or.inl ⟨rfl, sameContent⟩) ?_
  · rcases kept with ⟨sameDb, sameFile⟩ | ⟨current, stores⟩
    · exact reloads_of_loaded valid loaded sameFile sameDb
    · exact stores.reloads_iff.mpr rfl
  · rintro state actions next (⟨sameDb, sameFile⟩ | stores) step
    · obtain ⟨env, complete, result⟩ := step
      rcases (pollLoopStep_turn result).stores (sameDb ▸ live) complete with
          ⟨nextDb, nextFile, -⟩ | ⟨extended, ⟨employee, records⟩, -, -, after⟩
      · exact Or.inl ⟨nextDb.trans sameDb, by rw [nextFile, sameFile]⟩
      · have covered : content.drop extended.encode.length = [] := by
          rw [first_save records, ← live.holds.count]
          refine short.resolve_right fun full => ?_
          have bound := extended.bound
          rw [records, List.length_append, List.length_singleton, ← live.holds.count] at bound
          omega
        rw [sameFile, covered] at after
        exact Or.inr ⟨extended, after⟩
    · exact Or.inr (stores_step stores step)

/-- With more bytes behind the counted records, one accepted add request leaves a file that
the next start rejects.
-/
private theorem not_restarts_of_long {content : List UInt8}
    (loaded : loadDatabase dbfd content = .ok (db, file))
    (long : headerSize + employeeSize * (db.header.count.toNat + 1) < content.length)
    (room : db.header.count.toNat < 65535)
    : ¬ RestartLaw dbfd db file := by
  have valid : (0 : Int) ≤ dbfd := Int.natCast_nonneg dbfd
  obtain ⟨loadable, stored⟩ := (loadDatabase_ok_iff valid content db).mp ⟨file, loaded⟩
  obtain ⟨roster, live⟩ := loadable.represents
  rw [← stored] at live
  rw [live.holds.count] at long room
  obtain ⟨history, server, memory, env, run, -, accepts, complete⟩ :=
    first_add_run dbfd file 4 live.holds room (show nul ∉ [97, 44, 98, 44, 49] by decide)
      (by decide) (by decide)
  obtain ⟨extended, ⟨employee, records⟩, after, -, saved⟩ := accepts.represents live
  have stores : server.world.Stores extended (content.drop extended.encode.length) :=
    ⟨after, by rw [saved complete]; rw [← loadDatabase_content loaded]; rfl⟩
  intro law
  have reloads := law 4 history server
    (run_of_orderly (fun _ _ orderly => orderly.complete) run)
  have covered := (first_save records content).mp (stores.reloads_iff.mp reloads)
  omega

/-- After any run on a file that loaded, the next start loads the live records, exactly when
the file had at most one record's bytes behind the counted ones, or the counter was full and
no record could be added.
-/
theorem restart_law_iff {content : List UInt8}
    (loaded : loadDatabase dbfd content = .ok (db, file))
    : RestartLaw dbfd db file
      ↔ content.length ≤ headerSize + employeeSize * (db.header.count.toNat + 1)
        ∨ db.header.count.toNat = 65535 := by
  refine ⟨fun law => ?_, restarts_of_short loaded⟩
  by_contra long
  obtain ⟨long, notFull⟩ := not_or.mp long
  have bound := db.header.count.toNat_lt
  exact not_restarts_of_long loaded (Nat.lt_of_not_le long) (by omega) law

/-- The header and the record of a file that counts one record, and 516 more bytes. -/
def roomyHeader : List UInt8 := [76, 76, 65, 68, 0, 1, 0, 1, 0, 0, 4, 20]

def roomyFile : List UInt8 := roomyHeader ++ List.replicate 1032 65

/-- That file loads with one record, and can always be started again: the bytes behind the
record are overwritten by the first one that is added.
-/
theorem restart_law_roomy
    : ∃ db file,
        loadDatabase 3 roomyFile = .ok (db, file)
        ∧ db.header.count = 1
        ∧ RestartLaw 3 db file := by
  have header : storedHeader roomyFile = ⟨headerMagic, 1, 1, 1044⟩ := by
    rw [storedHeader, roomyFile, List.take_left' (show roomyHeader.length = headerSize by rfl)]
    decide
  have size : roomyFile.length = 1044 := by
    rw [roomyFile, List.length_append, List.length_replicate]
    rfl
  have loadable : Loadable roomyFile := by
    refine ⟨⟨?_, ?_, ?_, ?_⟩, ?_⟩ <;> simp [header, size, headerSize, employeeSize]
  obtain ⟨file, loaded⟩ := (loadDatabase_ok_iff (show (0 : Int) ≤ 3 by decide) _ _).mpr
    ⟨loadable, rfl⟩
  have count : (storedDb roomyFile).header.count = 1 := by rw [storedDb, header]
  refine ⟨_, file, loaded, count, (@restart_law_iff 3 _ _ _ loaded).mpr (Or.inl ?_)⟩
  rw [count, size]
  decide

/-- The header of an empty database in a file of 529 bytes, which has room for one record and
one more byte.
-/
def overlongHeader : List UInt8 := [76, 76, 65, 68, 0, 1, 0, 0, 0, 0, 2, 17]

def overlongFile : List UInt8 := overlongHeader ++ List.replicate 517 0

/-- The server accepts that file, but one add request makes it a file that it rejects. -/
theorem restart_law_overlong
    : ∃ db file,
        loadDatabase 3 overlongFile = .ok (db, file) ∧ ¬ RestartLaw 3 db file := by
  have header : storedHeader overlongFile = ⟨headerMagic, 1, 0, 529⟩ := by
    rw [storedHeader, overlongFile,
      List.take_left' (show overlongHeader.length = headerSize by rfl)]
    decide
  have size : overlongFile.length = 529 := by
    rw [overlongFile, List.length_append, List.length_replicate]
    rfl
  have loadable : Loadable overlongFile := by
    refine ⟨⟨?_, ?_, ?_, ?_⟩, ?_⟩ <;> simp [header, size, headerSize]
  obtain ⟨file, loaded⟩ := (loadDatabase_ok_iff (show (0 : Int) ≤ 3 by decide) _ _).mpr
    ⟨loadable, rfl⟩
  refine ⟨_, file, loaded, @not_restarts_of_long 3 _ _ _ loaded ?_ ?_⟩
  · rw [storedDb, header, size]
    decide
  · rw [storedDb, header]
    decide

-----------------------------------------------------------------------------------------
-- New files
-----------------------------------------------------------------------------------------

/-- The step accepts an add request; every write of the save that it then makes covers its
data.
-/
abbrev Adds (step : StepRecord) : Prop := AddsRecord step.before step.env

def SavesWhole (step : StepRecord) : Prop :=
  SaveCovers step.env.writes (step.before.world.db.header.count.toNat + 1)

/-- An empty file is not loaded. -/
private theorem not_reloads_empty {world : World} (empty : world.file.content = [])
    : ¬ world.Reloads := by
  intro reloads
  obtain ⟨db, file, loaded, -⟩ := reloads 0 (le_refl 0)
  have loadable := ((loadDatabase_ok_iff (le_refl 0) _ db).mp ⟨file, loaded⟩).1
  rw [empty] at loadable
  exact absurd loadable.header.long (by decide)

/-- What is known of the file of a server that was started on a new one: it is empty until an
add request is accepted. From then on it is never longer than the records need, and stores them
exactly when the last save was written as a whole.
-/
inductive NewFile (steps : List StepRecord) (world : World) : Prop
  | unwritten (none : ∀ step, ¬ LastWith Adds steps step)
    (version : world.db.header.version = 1)
    (magic : world.db.header.magic = headerMagic)
    (empty : world.file.content = [])
  | written (step : StepRecord) (roster : Roster)
    (last : ∀ other, LastWith Adds steps other ↔ other = step)
    (live : world.db.Represents roster)
    (short
      : world.file.content.length ≤ headerSize + employeeSize * world.db.header.count.toNat)
    (stored : world.file.content = roster.encode ↔ SavesWhole step)

/-- In both cases the header is valid and the file is not too long. -/
private theorem NewFile.valid {steps : List StepRecord} {world : World}
    (kept : NewFile steps world)
    : world.db.header.version = 1
      ∧ world.db.header.magic = headerMagic
      ∧ world.file.content.length
        ≤ headerSize + employeeSize * world.db.header.count.toNat := by
  cases kept with
  | unwritten none version magic empty => exact ⟨version, magic, by simp [empty]⟩
  | written step roster last live short stored => exact ⟨live.version, live.magic, short⟩

/-- Every step keeps it, whatever happens to its writes. -/
private theorem NewFile.step {steps : List StepRecord} {step : StepRecord}
    (kept : NewFile steps step.before.world)
    (result : pollLoopStep step.env dbfd step.before = .ok (step.after, step.actions))
    : NewFile (steps ++ [step]) step.after.world := by
  obtain ⟨version, magic, short⟩ := kept.valid
  by_cases adds : Adds step
  · obtain ⟨_, _, _, _, _, _, _, accepts, -⟩ := pollLoopStep_adds result adds
    obtain ⟨roster, live, stored⟩ := accepts.stored_iff version magic short
    refine .written step roster ?_ live (accepts.file_length short) stored
    intro other
    rw [lastWith_snoc_iff]
    simp [adds]
  · obtain ⟨sameDb, sameFile, -⟩ := pollLoopStep_adds_none result adds
    have last (other : StepRecord)
        : LastWith Adds (steps ++ [step]) other ↔ LastWith Adds steps other := by
      rw [lastWith_snoc_iff]
      simp [adds]
    cases kept with
    | unwritten none _ _ empty =>
        exact .unwritten (fun other => mt (last other).mp (none other)) (sameDb ▸ version)
          (sameDb ▸ magic) (sameFile ▸ empty)
    | written earlier roster earlierLast live _ stored =>
        exact .written earlier roster (fun other => (last other).trans (earlierLast other))
          (sameDb ▸ live) (by rw [sameDb, sameFile]; exact short) (by rw [sameFile]; exact stored)

/-- So it holds in every run, by induction on the run. -/
private theorem newFile_run {steps : List StepRecord} (header : db.header = headerOf 0)
    (empty : file.content = [])
    (run : RecordedRun dbfd (fun _ _ => True) (startServer db file listenFd) steps server)
    : NewFile steps server.world := by
  refine run.invariant (motive := fun steps server => NewFile steps server.world)
    (.unwritten not_lastWith_nil ?_ ?_ empty) ?_
  · change db.header.version = 1
    rw [header]
    rfl
  · change db.header.magic = headerMagic
    rw [header]
    rfl
  · rintro steps state step next kept ⟨rfl, rfl, -, result⟩
    exact kept.step result

/-- A server that was started on a new file can be started again on it, with the live records,
exactly when it has accepted an add request and every write of the save of the last one that
it accepted covered its data: nothing else ever writes the header.
-/
theorem new_file_restarts_iff {env : StartEnv} {steps : List StepRecord}
    (started : main true env dbfd none = some (db, file))
    (run : RecordedRun dbfd (fun _ _ => True) (startServer db file listenFd) steps server)
    : server.world.Reloads ↔ ∃ step, LastWith Adds steps step ∧ SavesWhole step := by
  obtain ⟨header, empty⟩ := main_new started
  cases newFile_run (by rw [header]) empty run with
  | unwritten none _ _ content =>
      exact iff_of_false (not_reloads_empty content) fun ⟨step, last, _⟩ => none step last
  | written step roster last live short stored =>
      rw [World.reloads_iff live short, stored]
      constructor
      · exact fun whole => ⟨step, (last step).mpr rfl, whole⟩
      · rintro ⟨other, isLast, whole⟩
        rwa [← (last other).mp isLast]

/-- When all writes are complete, it is enough that a request was accepted. -/
private theorem last_saved_whole {start : State} {steps : List StepRecord}
    (recorded : RecordedRun dbfd WritesComplete start steps server)
    (adds : ∃ step ∈ steps, Adds step)
    : ∃ step, LastWith Adds steps step ∧ SavesWhole step := by
  obtain ⟨step, last⟩ := exists_lastWith adds
  have complete := (recorded.step last.mem).2.1
  refine ⟨step, last, ?_, fun i _ => ?_⟩
  · rw [complete 0]
    trivial
  · rw [complete (i + 1)]
    trivial

/-- On a new file a client adds a record, and the server can be started again. -/
theorem new_file_restarts_one
    : ∃ db file steps server,
        main true .granted 3 none = some (db, file)
        ∧ RecordedRun 3 (fun _ _ => True) (startServer db file 4) steps server
        ∧ server.world.Reloads := by
  obtain ⟨db, file, steps, server, started, -, recorded, adds⟩ := main_new_adds
  have unguarded := recorded.mono (fun _ _ _ => trivial)
  exact ⟨db, file, steps, server, started, unguarded,
    (new_file_restarts_iff started unguarded).mpr (last_saved_whole recorded adds)⟩

/-- A server that is started on a new file and stopped at once cannot be started again. -/
theorem new_file_unwritten
    : ∃ db file history server,
        main true .granted 3 none = some (db, file)
        ∧ Run (Step 3 WritesComplete) (startServer db file 4) history server
        ∧ ¬ server.world.Reloads := by
  obtain ⟨file, started, empty⟩ := @main_of_opened .granted 3 true none _ _ rfl
  exact ⟨_, file, [], _, started, .nil, not_reloads_empty empty⟩

end LowlevelAcademy.Correctness
