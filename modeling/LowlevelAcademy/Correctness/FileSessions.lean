import LowlevelAcademy.Correctness.Appending
import LowlevelAcademy.Server.Startup
import LowlevelAcademy.Viewer.Program

/-! The life of a database file: runs of the viewer and of the server on one path, one after the
other. The file keeps the records that all of them added, in order.
-/

namespace LowlevelAcademy.Correctness

open LowlevelAcademy.Foundations
open LowlevelAcademy.Database
open LowlevelAcademy.Server

/-- A run of the viewer that returns, with its code and what it listed, or a run of the server that
gets into its loop, with the add requests that it accepted before it was stopped.
-/
inductive FileSession where
  | viewer (args : Viewer.Args) (code : Int) (printed : List ListedEmployee)
  | server (newfile : Bool) (accepted : List (List UInt8))

/-- The records that a session adds. The viewer's code tells whether it has added its record. -/
def FileSession.added : FileSession → List Employee
  | .viewer args code _ => if code = 0 then args.addString.toList.map employeeOf else []
  | .server _ accepted => accepted.map employeeOf

/-- A session on the file at the path, if there is one, with complete writes. The strings that are
added are terminated, and the server has memory for its first records.
-/
inductive SessionStep (path : Option (List UInt8))
    : FileSession → Option (List UInt8) → Prop
  | viewer {args : Viewer.Args} {env : Viewer.Env} {dbfd : Nat} {next : Option (List UInt8)}
    {code : Int} {printed : List ListedEmployee} (given : args.pathGiven)
    (clean : ∀ text, args.addString = some text → nul ∉ text)
    (complete : ∀ i, env.outcomes i = .complete)
    (returns : Viewer.main args env dbfd path = ⟨next, .returned code, printed⟩)
    : SessionStep path (.viewer args code printed) next
  | server {newfile : Bool} {env : StartEnv} {dbfd : Nat} {db : Db} {file : OpenFile UInt8}
    {listenFd : Int32} {history : List (List Action)} {server : State}
    (allocated : env.employeesAllocated)
    (starts : main newfile env dbfd path = some (db, file))
    (run
      : Run (Step dbfd fun state env => WritesComplete state env ∧ TerminatedAdds state env)
          (startServer db file listenFd) history server)
    : SessionStep path (.server newfile (acceptedRequests history.flatten))
        (some server.world.file.content)

/-- The records that the file at a path has: none where there is no file, or one that nothing was
written to.
-/
inductive Stored : Option (List UInt8) → List Employee → Prop
  | absent : Stored none []
  | unwritten : Stored (some []) []
  | written (roster : Roster) : Stored (some roster.encode) roster.records

-----------------------------------------------------------------------------------------
-- Runs of the viewer
-----------------------------------------------------------------------------------------

variable {args : Viewer.Args} {env : Viewer.Env} {dbfd : Nat} {next : Option (List UInt8)}
  {code : Int} {printed : List ListedEmployee} {file : OpenFile UInt8} {db : Db}
  {roster : Roster}

/-- What the viewer goes on with behind `read_employees`: the header of the roster, and its
records unless there was no memory for them.
-/
structure Loaded (db : Db) (roster : Roster) : Prop where
  version : db.header.version = 1
  magic : db.header.magic = headerMagic
  count : db.header.count.toNat = roster.records.length
  employees : db.employees = some roster.records ∨ db.employees = none

/-- What the viewer lists of the records. -/
def Lists (list : Bool) (behind : List UInt8) (records : List Employee)
    (printed : List ListedEmployee)
    : Prop :=
  (if list then listFrom behind (some records) 0 records.length else .ok []) = .ok printed

/-- A run that gets through listing and saving leaves a file with just the records. -/
theorem listAndSave_returns {list : Bool} (loaded : Loaded db roster)
    (covered : file.content.length ≤ roster.encode.length)
    (complete : ∀ i, env.outcomes i = .complete)
    (returns : Viewer.listAndSave list env dbfd file db = ⟨next, .returned code, printed⟩)
    : code = 0 ∧ next = some roster.encode ∧ Lists list env.behind roster.records printed := by
  have nothing : file.content.drop roster.encode.length = [] := List.drop_eq_nil_of_le covered
  obtain ⟨header, employees⟩ := db
  rw [Viewer.listAndSave] at returns
  split at returns
  · cases returns
  next shown listing =>
  split at returns
  · cases returns
  next saved saving =>
  obtain ⟨rfl, rfl, rfl⟩
      : some saved.file.content = next ∧ (0 : Int) = code ∧ shown = printed := by
    simpa using returns
  refine ⟨rfl, ?_⟩
  rcases loaded.employees with held | null
  · obtain rfl : employees = some roster.records := held
    have live : Db.Represents ⟨header, some roster.records⟩ roster :=
      ⟨⟨rfl, loaded.count⟩, loaded.version, loaded.magic⟩
    obtain ⟨again, result, content⟩ := Viewer.outputFile_content env.outcomes
      (Int.natCast_nonneg dbfd) file live complete
    rw [saving] at result
    obtain rfl := Except.ok.inj result
    rw [content, nothing, List.append_nil]
    refine ⟨rfl, ?_⟩
    rw [Database.listEmployees, loaded.count] at listing
    exact listing
  · -- without records the run can only get through when none are counted
    obtain rfl : employees = none := null
    have notBad : ¬ (dbfd : Int) < 0 := by omega
    have count := loaded.count
    have none : roster.records = [] := by
      by_contra some
      obtain ⟨n, more⟩ := Nat.exists_eq_succ_of_ne_zero
        fun zero => some (List.length_eq_zero_iff.mp (count.symm.trans zero))
      have more : header.count.toNat = n + 1 := more
      simp [Viewer.outputFile, notBad, more, writeEmployees, employeeAt] at saving
    have zero : header.count.toNat = 0 := by simpa [none] using count
    have encoded : roster.encode = encodeHeader 0 := by simp [Roster.encode, none]
    have content : saved.file.content = roster.encode := by
      rw [encoded, encodeHeader_length] at nothing
      rw [← Viewer.outputFileLeft_eq saving,
        Viewer.outputFileLeft_null _ _ loaded.version loaded.magic, complete, zero,
        OpenFile.rewind_write_content, encodeHeader_length, nothing, encoded, List.append_nil]
    rw [content]
    refine ⟨rfl, ?_⟩
    rw [Database.listEmployees, zero] at listing
    rw [Lists, none]
    exact listing

/-- Adding only succeeds where the last record counted is there. -/
theorem employeeAt_of_added {added : Db} {text : List UInt8}
    (adds : Viewer.addResult db text = .ok added)
    : ∃ employee, employeeAt db.employees (db.header.count.toNat - 1) = .ok employee := by
  by_cases none : fields text = []
  · rw [Viewer.addResult, if_pos none] at adds
    cases adds
  · cases found : employeeAt db.employees (db.header.count.toNat - 1) with
    | ok employee => exact ⟨employee, rfl⟩
    | error halt => simp [Viewer.addResult, none, found] at adds

/-- It never makes the run return. -/
theorem addResult_not_returned {text : List UInt8}
    : Viewer.addResult db text ≠ .error (.returned code) := by
  intro returned
  by_cases none : fields text = []
  · simp [Viewer.addResult, none] at returned
  · by_cases few : (fields text).length < 3 <;>
      cases found : employeeAt db.employees (db.header.count.toNat - 1) <;>
        simp [Viewer.addResult, none, few, found] at returned

/-- When adding makes the run return, `realloc` has failed, and the code is -1. -/
theorem addArgument_error {resize : Viewer.Resize} {text : List UInt8} (clean : nul ∉ text)
    (fails : Viewer.addArgument resize db text = .error (.returned code))
    : code = -1 := by
  cases block : Viewer.resized resize db.employees (db.header.count + 1).toNat with
  | none =>
      simp only [Viewer.addArgument, block] at fails
      cases fails
      rfl
  | some employees =>
      rw [Viewer.addArgument_resized db clean block] at fails
      exact absurd fails addResult_not_returned

/-- The last record counted is only there when the records were loaded and their block has grown in
place.
-/
theorem grown_in_place {resize : Viewer.Resize} {count i : Nat} {grown : Option (List Employee)}
    {employee : Employee} (loaded : Loaded db roster)
    (block : Viewer.resized resize db.employees count = some grown)
    (found : employeeAt grown i = .ok employee)
    : db.employees = some roster.records ∧ ∃ fresh, resize = .inPlace fresh := by
  have some : count ≠ 0 := by
    rintro rfl
    cases block
  rw [Viewer.resized.eq_def, if_neg some] at block
  cases resize with
  | failed => cases block
  | moved =>
      obtain rfl := Option.some.inj block
      cases held : db.employees <;> simp [held, employeeAt] at found
  | inPlace fresh =>
      refine ⟨loaded.employees.resolve_right fun null => ?_, fresh, rfl⟩
      rw [null] at block
      obtain rfl := Option.some.inj block
      simp [employeeAt] at found

/-- Adding that succeeds has the records of the file in memory, and one more behind them. -/
theorem addArgument_ok {resize : Viewer.Resize} {text : List UInt8} {added : Db}
    (loaded : Loaded db roster) (clean : nul ∉ text)
    (adds : Viewer.addArgument resize db text = .ok added)
    : ∃ extended : Roster,
        extended.records = roster.records ++ [employeeOf text] ∧ added.Represents extended := by
  cases block : Viewer.resized resize db.employees (db.header.count + 1).toNat with
  | none =>
      simp only [Viewer.addArgument, block] at adds
      cases adds
  | some grown =>
      rw [Viewer.addArgument_resized db clean block] at adds
      obtain ⟨employee, found⟩ := employeeAt_of_added adds
      obtain ⟨held, fresh, rfl⟩ := grown_in_place loaded block found
      have count : (db.header.count + 1).toNat = roster.records.length + 1 := by
        have one : (1 : UInt16).toNat = 1 := rfl
        have small := db.header.count.toNat_lt
        have some : (db.header.count + 1).toNat ≠ 0 := by
          intro zero
          rw [zero] at block
          cases block
        have counted := loaded.count
        rw [UInt16.toNat_add, one] at some ⊢
        omega
      rw [held, count, Viewer.resized_succ] at block
      obtain rfl := Option.some.inj block
      rw [Viewer.addResult_grown count] at adds
      split_ifs at adds
      obtain rfl := Except.ok.inj adds
      have holds : Db.Holds ⟨{ db.header with count := db.header.count + 1 },
          some (roster.records ++ [employeeOf text])⟩ (roster.records ++ [employeeOf text]) :=
        ⟨rfl, by rw [count, List.length_append, List.length_singleton]⟩
      exact ⟨holds.roster, rfl, holds, loaded.version, loaded.magic⟩

/-- What a run that returns leaves from `read_employees` on: the file as it is, when `realloc` has
failed, or else a file with just the records, the new one among them.
-/
theorem afterLoading_returns (loaded : Loaded db roster)
    (covered : file.content.length ≤ roster.encode.length)
    (clean : ∀ text, args.addString = some text → nul ∉ text)
    (complete : ∀ i, env.outcomes i = .complete)
    (returns : Viewer.afterLoading args env dbfd file db = ⟨next, .returned code, printed⟩)
    : code = -1 ∧ next = some file.content
      ∨ code = 0
        ∧ ∃ extended : Roster,
            extended.records = roster.records ++ args.addString.toList.map employeeOf
            ∧ next = some extended.encode
            ∧ Lists args.list env.behind extended.records printed := by
  cases asked : args.addString with
  | none =>
      rw [Viewer.afterLoading, asked] at returns
      obtain ⟨success, left, lists⟩ := listAndSave_returns loaded covered complete returns
      exact Or.inr ⟨success, roster, by simp, left, lists⟩
  | some text =>
      cases adds : Viewer.addArgument env.resize db text with
      | error ending =>
          rw [Viewer.afterLoading_failed asked adds] at returns
          obtain ⟨rfl, rfl, -⟩ : some file.content = next ∧ ending = .returned code ∧ _ := by
            simpa using returns
          exact Or.inl ⟨addArgument_error (clean text asked) adds, rfl⟩
      | ok added =>
          rw [Viewer.afterLoading_added asked adds] at returns
          obtain ⟨extended, records, live⟩ := addArgument_ok loaded (clean text asked) adds
          have loaded : Loaded added extended :=
            ⟨live.version, live.magic, live.holds.count, Or.inl live.holds.employees⟩
          have covered : file.content.length ≤ extended.encode.length := by
            rw [Roster.encode_length_append records]
            omega
          obtain ⟨success, left, lists⟩ := listAndSave_returns loaded covered complete returns
          exact Or.inr ⟨success, extended, by simp [records], left, lists⟩

/-- What the file of a roster stores. -/
theorem storedHeader_encode (roster : Roster)
    : storedHeader roster.encode = headerOf roster.records.length
      ∧ some (storedEmployees (storedHeader roster.encode).count.toNat roster.encode)
        = some roster.records := by
  have stored := storedDb_encode_append roster []
  rw [List.append_nil] at stored
  exact ⟨congrArg Db.header stored, congrArg Db.employees stored⟩

/-- What the viewer loads from it. -/
theorem loaded_openedDb (roster : Roster) (allocated : Bool)
    : Loaded (Viewer.openedDb allocated roster.encode) roster := by
  obtain ⟨header, records⟩ := storedHeader_encode roster
  refine ⟨?_, ?_, ?_, ?_⟩
  · exact congrArg DbHeader.version header
  · exact congrArg DbHeader.magic header
  · exact (congrArg (·.count.toNat) header).trans (headerOf_count roster.bound)
  · rw [Viewer.openedDb]
    dsimp only
    split_ifs
    · exact Or.inr rfl
    · exact Or.inr rfl
    · exact Or.inl records

/-- Behind a new header the viewer goes on with no records. -/
theorem process_new (args : Viewer.Args) (env : Viewer.Env) (dbfd : Nat)
    : ∃ file db,
        file.content = []
        ∧ Loaded db Roster.empty
        ∧ Viewer.process args env dbfd (.opened []) (headerOf 0)
          = Viewer.afterLoading args env dbfd file db := by
  have notBad : ¬ (dbfd : Int) < 0 := by omega
  cases read : Viewer.readEmployees dbfd env.employeesAllocated (.opened []) (headerOf 0) with
  | error reason =>
      exact ⟨.opened [], ⟨headerOf 0, none⟩, rfl, ⟨rfl, rfl, rfl, Or.inr rfl⟩, by
        simp only [Viewer.process, read]⟩
  | ok loaded =>
      obtain ⟨employees, file⟩ := loaded
      obtain rfl : employees = [] := by
        simp only [Viewer.readEmployees, Database.readEmployees, notBad, if_false] at read
        split_ifs at read
        obtain ⟨rfl, -⟩ := Prod.mk.inj (Except.ok.inj read)
        rfl
      exact ⟨file, ⟨headerOf 0, some []⟩, readEmployees_content read, ⟨rfl, rfl, rfl, Or.inl rfl⟩,
        by simp only [Viewer.process, read]⟩

/-- A file without a header is not valid. -/
theorem not_validHeader_nil : ¬ ValidHeader [] := fun valid => absurd valid.long (by decide)

variable {path : Option (List UInt8)} {records : List Employee}

/-- What a run of the viewer that returns does to the file: it saves the records that it lists, or
it fails and leaves the file alone, unless it has just made it.
-/
structure ViewerKeeps (path : Option (List UInt8)) (records : List Employee) (args : Viewer.Args)
    (env : Viewer.Env) (next : Option (List UInt8)) (code : Int) (printed : List ListedEmployee)
    : Prop where
  stored : Stored next (records ++ (FileSession.viewer args code printed).added)
  codes : code = 0 ∨ code = -1
  lists
    : code = 0
      → Lists args.list env.behind (records ++ args.addString.toList.map employeeOf) printed
  unwritten : path = some [] → code = -1 ∧ next = some []

/-- A failed run that leaves the file with its records does. -/
theorem viewerKeeps_failed (stored : Stored next records) (kept : path = some [] → next = path)
    : ViewerKeeps path records args env next (-1) printed where
  stored := by simpa [FileSession.added] using stored
  codes := Or.inr rfl
  lists := by simp
  unwritten empty := ⟨rfl, (kept empty).trans empty⟩

/-- So does a run that gets behind `read_employees`. -/
theorem viewerKeeps_loaded (loaded : Loaded db roster)
    (covered : file.content.length ≤ roster.encode.length)
    (left : Stored (some file.content) roster.records)
    (clean : ∀ text, args.addString = some text → nul ∉ text)
    (complete : ∀ i, env.outcomes i = .complete) (old : path ≠ some [])
    (returns : Viewer.afterLoading args env dbfd file db = ⟨next, .returned code, printed⟩)
    : ViewerKeeps path roster.records args env next code printed := by
  rcases afterLoading_returns loaded covered clean complete returns with
      ⟨rfl, rfl⟩ | ⟨rfl, extended, records, rfl, lists⟩
  · exact viewerKeeps_failed left fun empty => absurd empty old
  · refine ⟨?_, Or.inl rfl, fun _ => records ▸ lists, fun empty => absurd empty old⟩
    simpa [FileSession.added, records] using Stored.written extended

/-- A run that ends in front of `read_employees` and leaves a file without other records. -/
theorem viewerKeeps_stopped {left : Option (List UInt8)} (stored : Stored left records)
    (kept : path = some [] → left = path)
    (returns : (⟨left, .returned (-1), []⟩ : Viewer.Finished) = ⟨next, .returned code, printed⟩)
    : ViewerKeeps path records args env next code printed := by
  obtain ⟨rfl, rfl, -⟩ : left = next ∧ (-1 : Int) = code ∧ _ := by simpa using returns
  exact viewerKeeps_failed stored kept

/-- Every run of the viewer that returns keeps the records. By what was at the path. -/
theorem viewer_keeps (stored : Stored path records) (given : args.pathGiven)
    (clean : ∀ text, args.addString = some text → nul ∉ text)
    (complete : ∀ i, env.outcomes i = .complete)
    (returns : Viewer.main args env dbfd path = ⟨next, .returned code, printed⟩)
    : ViewerKeeps path records args env next code printed := by
  cases path with
  | none =>
      cases stored
      cases newfile : args.newfile with
      | false =>
          rw [Viewer.main, given, newfile] at returns
          exact viewerKeeps_stopped .absent (fun _ => rfl) returns
      | true =>
          cases permitted : env.permitted with
          | false =>
              rw [Viewer.main, given, newfile, permitted] at returns
              exact viewerKeeps_stopped .absent (fun _ => rfl) returns
          | true =>
              cases allocated : env.headerAllocated with
              | false =>
                  rw [Viewer.main, given, newfile, permitted, allocated] at returns
                  exact viewerKeeps_stopped .unwritten (by simp) returns
              | true =>
                  obtain ⟨file, db, nothing, loaded, goes⟩ := process_new args env dbfd
                  rw [Viewer.main, given, newfile, permitted, allocated] at returns
                  replace returns := goes.symm.trans returns
                  exact viewerKeeps_loaded loaded (by simp [nothing]) (nothing ▸ .unwritten) clean
                    complete (by simp) returns
  | some content =>
      have stopped : Viewer.main args env dbfd (some content) = ⟨some content, .returned (-1), []⟩
          → ViewerKeeps (some content) records args env next code printed := fun stops =>
        viewerKeeps_stopped stored (fun _ => rfl) (stops.symm.trans returns)
      cases newfile : args.newfile with
      | true => exact stopped (by rw [Viewer.main, given, newfile]; rfl)
      | false =>
          rcases Viewer.main_existing given newfile with stops | ⟨valid, file, same, goes⟩
          · exact stopped stops
          · rw [goes] at returns
            cases stored with
            | unwritten => exact absurd valid not_validHeader_nil
            | written roster =>
                exact viewerKeeps_loaded (loaded_openedDb roster _) (by rw [same])
                  (by rw [same]; exact .written roster) clean complete
                  (fun empty => by
                    rw [Option.some.inj empty] at valid
                    exact not_validHeader_nil valid)
                  returns

-----------------------------------------------------------------------------------------
-- Runs of the server
-----------------------------------------------------------------------------------------

/-- A server that starts on a file that its records cover keeps them and adds to them. The file
stays until the first request is accepted, and from then on stores just the records.
-/
theorem server_run {content : List UInt8} {listenFd : Int32} {history : List (List Action)}
    {server : State} (live : db.Represents roster) (same : file.content = content)
    (covered : content.length ≤ roster.encode.length)
    (run
      : Run (Step dbfd fun state env => WritesComplete state env ∧ TerminatedAdds state env)
          (startServer db file listenFd) history server)
    : server.world.db.Holds
        (roster.records ++ (acceptedRequests history.flatten).map employeeOf)
      ∧ (acceptedRequests history.flatten = [] ∧ server.world.file.content = content
        ∨ ∃ current : Roster, server.world.Stores current []) := by
  suffices kept : server.world.db.Holds
        (roster.records ++ (acceptedRequests history.flatten).map employeeOf)
      ∧ (acceptedRequests history.flatten = [] ∧ server.world.db = db
          ∧ server.world.file.content = content
        ∨ ∃ current : Roster, server.world.Stores current []) from
    kept.imp_right (Or.imp_left fun unchanged => ⟨unchanged.1, unchanged.2.2⟩)
  refine run.invariant
    (motive := fun history server =>
      server.world.db.Holds (roster.records ++ (acceptedRequests history.flatten).map employeeOf)
      ∧ (acceptedRequests history.flatten = [] ∧ server.world.db = db
          ∧ server.world.file.content = content
        ∨ ∃ current : Roster, server.world.Stores current []))
    ⟨by simpa [acceptedRequests, startServer] using live.holds, Or.inl ⟨rfl, rfl, same⟩⟩ ?_
  rintro history state actions next ⟨holds, kept⟩ ⟨env, ⟨complete, terminated⟩, result⟩
  rw [List.flatten_append, List.flatten_singleton, acceptedRequests_append, List.map_append,
    ← List.append_assoc]
  refine ⟨holds_step holds ⟨env, terminated, result⟩, ?_⟩
  rcases kept with ⟨none, sameDb, unchanged⟩ | stores
  · rcases (pollLoopStep_turn result).stores (sameDb ▸ live) complete with
        ⟨nextDb, nextFile, quiet⟩ | ⟨extended, ⟨employee, records⟩, -, -, after⟩
    · exact Or.inl ⟨by rw [none, quiet]; rfl, nextDb.trans sameDb, by rw [nextFile, unchanged]⟩
    · have nothing : content.drop extended.encode.length = [] := by
        refine List.drop_eq_nil_of_le (covered.trans ?_)
        rw [Roster.encode_length_append records]
        exact Nat.le_add_right _ _
      rw [unchanged, nothing] at after
      exact Or.inr ⟨extended, after⟩
  · exact Or.inr (stores_step stores ⟨env, complete, result⟩)

/-- A server that is started on an existing file does not change it before its loop. -/
theorem main_content {env : StartEnv} {content : List UInt8}
    (starts : main false env dbfd (some content) = some (db, file))
    : file.content = content := by
  obtain ⟨⟨permitted, readable, valid⟩, -⟩ := main_existing_iff.mp ⟨file, starts⟩
  have validated := (validateDbHeader_ok_iff (Int.natCast_nonneg dbfd) content _ _).mpr
    ⟨valid, rfl, rfl⟩
  have opened : openDatabase false env dbfd (some content)
      = some (storedHeader content, behindHeader content valid.long) := by
    simp only [openDatabase, openDbFile, permitted, readable, Bool.false_eq_true, if_false,
      if_true, validated]
  obtain ⟨again, entered, same⟩ := main_of_opened opened
  rw [starts] at entered
  obtain ⟨-, rfl⟩ := Prod.mk.inj (Option.some.inj entered)
  exact same

/-- Every run of the server that gets into its loop keeps the records; it does so only on a path
without a file, when it is to make one, or on a file that was written to.
-/
theorem server_keeps {newfile : Bool} {env : StartEnv} {listenFd : Int32}
    {history : List (List Action)} {server : State} (stored : Stored path records)
    (allocated : env.employeesAllocated)
    (starts : main newfile env dbfd path = some (db, file))
    (run
      : Run (Step dbfd fun state env => WritesComplete state env ∧ TerminatedAdds state env)
          (startServer db file listenFd) history server)
    : path ≠ some []
      ∧ Stored (some server.world.file.content)
          (records ++ (acceptedRequests history.flatten).map employeeOf) := by
  obtain ⟨roster, content, live, same, covered, rfl, unchanged, old⟩ : ∃ roster content,
      db.Represents roster
      ∧ file.content = content
      ∧ content.length ≤ roster.encode.length
      ∧ roster.records = records
      ∧ Stored (some content) records
      ∧ path ≠ some [] := by
    cases path with
    | none =>
        cases stored
        cases newfile with
        | false => cases starts
        | true =>
            obtain ⟨rfl, nothing⟩ := main_new_empty allocated starts
            exact ⟨Roster.empty, [], ⟨⟨rfl, rfl⟩, rfl, rfl⟩, nothing, Nat.zero_le _, rfl,
              .unwritten, by simp⟩
    | some content =>
        cases newfile with
        | true => cases starts
        | false =>
            obtain ⟨⟨-, -, valid⟩, opened⟩ := main_existing_iff.mp ⟨file, starts⟩
            cases stored with
            | unwritten => exact absurd valid not_validHeader_nil
            | written roster =>
                obtain ⟨header, loaded⟩ := storedHeader_encode roster
                have count : (storedHeader roster.encode).count.toNat = roster.records.length :=
                  header ▸ headerOf_count roster.bound
                have long : headerSize + employeeSize * (storedHeader roster.encode).count.toNat
                    ≤ roster.encode.length := by
                  rw [count, Roster.encode_length]
                have held : db.employees = some roster.records := by
                  rw [opened, ← loaded]
                  exact if_pos ⟨allocated, long⟩
                exact ⟨roster, roster.encode,
                  ⟨⟨held, by rw [opened]; exact count⟩, by rw [opened]; exact valid.version,
                    by rw [opened]; exact valid.magic⟩,
                  main_content starts, le_refl _, rfl, .written roster,
                  fun empty => not_validHeader_nil (Option.some.inj empty ▸ valid)⟩
  obtain ⟨holds, kept⟩ := server_run live same covered run
  refine ⟨old, ?_⟩
  rcases kept with ⟨none, left⟩ | ⟨current, stores⟩
  · rw [none, left]
    simpa using unchanged
  · have counted := stores.live.holds.employees
    rw [holds.employees] at counted
    rw [Option.some.inj counted, stores.content, List.append_nil]
    exact .written current

-----------------------------------------------------------------------------------------
-- One session after the other
-----------------------------------------------------------------------------------------

variable {start : Option (List UInt8)} {initial : List Employee} {session : FileSession}
  {sessions : List FileSession}

/-- One session leaves a file with the records before it and those that it adds. -/
theorem session_stored (stored : Stored path records) (step : SessionStep path session next)
    : Stored next (records ++ session.added) := by
  cases step with
  | viewer given clean complete returns =>
      exact (viewer_keeps stored given clean complete returns).stored
  | server allocated starts run => exact (server_keeps stored allocated starts run).2

/-- So does a sequence of sessions. -/
theorem sessions_stored (stored : Stored start initial) (run : Run SessionStep start sessions path)
    : Stored path (initial ++ sessions.flatMap FileSession.added) := by
  refine run.invariant
    (motive := fun sessions path =>
      Stored path (initial ++ sessions.flatMap FileSession.added))
    (by simpa using stored) ?_
  intro sessions path session next stored step
  simpa using session_stored stored step

/-- A file that was made and not written to is of no use to either program. -/
theorem unwritten_run (run : Run SessionStep (some []) sessions next)
    : next = some []
      ∧ ∀ session ∈ sessions, ∃ args printed, session = .viewer args (-1) printed := by
  refine run.invariant
    (motive := fun sessions next =>
      next = some []
      ∧ ∀ session ∈ sessions, ∃ args printed, session = .viewer args (-1) printed)
    ⟨rfl, by simp⟩ ?_
  rintro sessions path session after ⟨rfl, failed⟩ step
  cases step with
  | viewer given clean complete returns =>
      obtain ⟨rfl, same⟩ :=
        (viewer_keeps .unwritten given clean complete returns).unwritten rfl
      refine ⟨same, fun other member => ?_⟩
      rcases List.mem_append.mp member with earlier | last
      · exact failed other earlier
      · exact ⟨_, _, List.mem_singleton.mp last⟩
  | server allocated starts run =>
      exact absurd rfl (server_keeps .unwritten allocated starts run).1

/-- Runs of the viewer and of the server on one path, in any order, with complete writes,
terminated add strings and memory for the server's first records: in the end the file has the
records it had at first and then those that the runs added, in order; a viewer that succeeds
lists these as they are, its own included, when their fields are terminated; and once the file
was made but not written to, every run of the viewer fails, the server never gets into its loop
again, and the file stays empty.
-/
theorem file_keeps_records (stored : Stored start initial)
    (run : Run SessionStep start sessions path)
    : Stored path (initial ++ sessions.flatMap FileSession.added)
      ∧ (∀ before args code printed after shown,
          sessions = before ++ .viewer args code printed :: after
          → shown = initial ++ before.flatMap FileSession.added
              ++ args.addString.toList.map employeeOf
          → (code = 0 ∨ code = -1)
            ∧ (code = 0
              → args.list
              → (∀ employee ∈ shown, nul ∈ employee.name.toList ∧ nul ∈ employee.address.toList)
              → printed = shown.mapIdx listedEmployee))
      ∧ (path = some []
        → ∀ more later,
            Run SessionStep path more later
            → later = some []
              ∧ ∀ session ∈ more, ∃ args printed, session = .viewer args (-1) printed) := by
  refine ⟨sessions_stored stored run, ?_, ?_⟩
  · rintro before args code printed after shown rfl rfl
    obtain ⟨path, next, earlier, step, -⟩ := run.passes
    cases step with
    | @viewer _ env _ _ _ _ given clean complete returns =>
        have kept := viewer_keeps (sessions_stored stored earlier) given clean complete returns
        refine ⟨kept.codes, fun success listed terminated => ?_⟩
        have lists := kept.lists success
        have shows := listFrom_terminated env.behind [] _ terminated
        rw [Lists, if_pos listed] at lists
        simp only [List.nil_append, List.length_nil, Nat.zero_add] at shows
        exact (Except.ok.inj (shows.symm.trans lists)).symm
  · rintro rfl more later rest
    exact unwritten_run rest

/-- A new file to which a record is added. -/
theorem file_keeps_records_new
    : ∃ path printed,
        Run SessionStep none [.viewer ⟨true, true, some [97, 44, 98, 44, 49], true⟩ 0 printed] path
        ∧ Stored path [employeeOf [97, 44, 98, 44, 49]] := by
  let env : Viewer.Env :=
    ⟨true, true, true, .inPlace fun _ => employeeOf [], [nul], fun _ => .complete⟩
  let args : Viewer.Args := ⟨true, true, some [97, 44, 98, 44, 49], true⟩
  have returns : (Viewer.main args env 3 none).ending = .returned 0 := by rfl
  have run : Run SessionStep none [.viewer args 0 (Viewer.main args env 3 none).printed]
      (Viewer.main args env 3 none).file :=
    .single (.viewer rfl (by rintro text ⟨⟩; decide) (fun _ => rfl) (by rw [← returns]))
  exact ⟨_, _, run, (file_keeps_records .absent run).1⟩

end LowlevelAcademy.Correctness
