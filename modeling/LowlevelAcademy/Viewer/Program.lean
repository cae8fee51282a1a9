import LowlevelAcademy.Database.Saving
import LowlevelAcademy.Database.Adding
import LowlevelAcademy.Database.Printing

/-! The viewer's `main`: one run loads a database file or creates a new one, adds a record,
lists the records, and always saves in the end.
-/

namespace LowlevelAcademy.Viewer

open LowlevelAcademy.Foundations
open LowlevelAcademy.Database

/-- The options that a run was given: `-f`, `-n`, `-a` and `-l`. -/
structure Args where
  pathGiven : Bool
  newfile : Bool
  addString : Option (List UInt8)
  list : Bool

/-- What `realloc` does with a block: it fails, it grows the block in place, or it moves the block
and frees the old one. `fresh` tells what the added memory happens to hold.
-/
inductive Resize where
  | failed
  | inPlace (fresh : Nat → Employee)
  | moved

/-- What the system calls of a run return: whether the path may be opened or created, whether
memory for the header and for the records is available, what `realloc` does, the memory behind
the records, and how the `write` calls end.
-/
structure Env where
  permitted : Bool
  headerAllocated : Bool
  employeesAllocated : Bool
  resize : Resize
  behind : List UInt8
  outcomes : Nat → WriteOutcome

/-- How a run ends: `main` returns a code, a field is used that `strtok` did not find, or memory
is used that is not there.
-/
inductive Ending where
  | returned (code : Int)
  | missingField
  | halted (halt : Halt)
  deriving DecidableEq

/-- The file at the path after a run, the run's end and what it listed. -/
structure Finished where
  file : Option (List UInt8)
  ending : Ending
  printed : List ListedEmployee

/-- `create_db_file`; `path` is the content of the file at the path, if there is one. -/
def createDbFile (permitted : Bool) (path : Option (List UInt8)) : Option (OpenFile UInt8) :=
  match path with
  | some _ => none
  | none => if permitted then some (.opened []) else none

/-- `open_db_file` -/
def openDbFile (permitted : Bool) (path : Option (List UInt8)) : Option (OpenFile UInt8) :=
  match path with
  | some content => if permitted then some (.opened content) else none
  | none => none

/-- `add_employee` of the viewer. Its three `strtok` calls are made in any case, and neither they
nor the index are tested.
-/
def addEmployee (db : Db) (memory : List UInt8) : Except Ending Db :=
  match strtok nul comma memory 0 with
  | none => .error (.halted .overrun)
  | some ⟨memory, save, name⟩ =>
      match strtok nul comma memory save with
      | none => .error (.halted .overrun)
      | some ⟨memory, save, address⟩ =>
          match strtok nul comma memory save with
          | none => .error (.halted .overrun)
          | some ⟨memory, _, hours⟩ =>
              match name with
              | none => .error .missingField
              | some name =>
                  let last := db.header.count.toNat - 1
                  match employeeAt db.employees last, address, hours with
                  | .error halt, _, _ => .error (.halted halt)
                  | .ok _, some address, some hours =>
                      let employee := newEmployee (memory.drop name) (memory.drop address)
                        (memory.drop hours)
                      .ok { db with employees := db.employees.map (·.set last employee) }
                  | .ok _, _, _ => .error .missingField

/-- What the pointer of `main` leads to after `realloc` to `count` records, whose result is only
compared with NULL; none when it is NULL. The pointer stays, so of a block that was moved nothing
is left behind it.
-/
def resized (resize : Resize) (employees : Option (List Employee)) (count : Nat)
    : Option (Option (List Employee)) :=
  if count = 0 then none
  else
    match resize with
    | .failed => none
    | .inPlace fresh => some (employees.bind fun block => realloc (some fresh) (some block) count)
    | .moved => some (employees.map fun _ => [])

/-- The part of `main` for `-a`. `text` is the argument, which a terminator ends. -/
def addArgument (resize : Resize) (db : Db) (text : List UInt8) : Except Ending Db :=
  let header := { db.header with count := db.header.count + 1 }
  match resized resize db.employees header.count.toNat with
  | none => .error (.returned (-1))
  | some employees => addEmployee ⟨header, employees⟩ (text ++ [nul])

/-- The file that the loop of `output_file` leaves when it halts at a record that is not there. -/
def writeEmployeesLeft (outcomes : Nat → WriteOutcome)
    : Nat → Nat → OpenFile UInt8 → Option (List Employee) → OpenFile UInt8
  | _, 0, file, _ => file
  | i, remaining + 1, file, employees =>
      match employeeAt employees i with
      | .error _ => file
      | .ok employee =>
          let swapped := { employee with hours := htonl employee.hours }
          writeEmployeesLeft outcomes (i + 1) remaining
            (file.write (outcomes (i + 1)) swapped.toBytes) (employees.map (·.set i swapped))

/-- The file that `output_file` leaves when it halts: the header was written before the records.
-/
def outputFileLeft (outcomes : Nat → WriteOutcome) (file : OpenFile UInt8) (db : Db)
    : OpenFile UInt8 :=
  let hostCount := db.header.count.toNat
  let newFilesize := UInt32.ofNat (headerSize + employeeSize * hostCount)
  let header := db.header.toNetwork newFilesize
  writeEmployeesLeft outcomes 0 hostCount (file.rewind.write (outcomes 0) header.toBytes)
    db.employees

/-- The end of `main`: with `-l` the records are listed, and in any case they are saved. -/
def listAndSave (list : Bool) (env : Env) (dbfd : Nat) (file : OpenFile UInt8) (db : Db)
    : Finished :=
  match if list then Database.listEmployees env.behind db else .ok [] with
  | .error halt => ⟨some file.content, .halted halt, []⟩
  | .ok printed =>
      match outputFile env.outcomes dbfd file db with
      | .error halt => ⟨some (outputFileLeft env.outcomes file db).content, .halted halt, printed⟩
      | .ok saved => ⟨some saved.file.content, .returned 0, printed⟩

/-- `main` behind `read_employees`. -/
def afterLoading (args : Args) (env : Env) (dbfd : Nat) (file : OpenFile UInt8) (db : Db)
    : Finished :=
  match args.addString with
  | none => listAndSave args.list env dbfd file db
  | some text =>
      match addArgument env.resize db text with
      | .error ending => ⟨some file.content, ending, []⟩
      | .ok db => listAndSave args.list env dbfd file db

/-- `main` from `read_employees` on. When that fails this is only reported: the pointer stays NULL,
and the offset, which may have moved, is not used again.
-/
def process (args : Args) (env : Env) (dbfd : Nat) (file : OpenFile UInt8) (header : DbHeader)
    : Finished :=
  match readEmployees dbfd env.employeesAllocated file header with
  | .error _ => afterLoading args env dbfd file ⟨header, none⟩
  | .ok (employees, file) => afterLoading args env dbfd file ⟨header, some employees⟩

/-- `main` of the viewer, behind the parsing of its options. -/
def main (args : Args) (env : Env) (dbfd : Nat) (path : Option (List UInt8)) : Finished :=
  if !args.pathGiven then ⟨path, .returned 0, []⟩
  else if args.newfile then
    match createDbFile env.permitted path with
    | none => ⟨path, .returned (-1), []⟩
    | some file =>
        match createDbHeader env.headerAllocated with
        | .error _ => ⟨some file.content, .returned (-1), []⟩
        | .ok header => process args env dbfd file header
  else
    match openDbFile env.permitted path with
    | none => ⟨path, .returned (-1), []⟩
    | some file =>
        match validateDbHeader dbfd env.headerAllocated file with
        | .error _ => ⟨some file.content, .returned (-1), []⟩
        | .ok (header, file) => process args env dbfd file header

/-- The database with which `main` goes on behind `read_employees`. -/
def openedDb (allocated : Bool) (content : List UInt8) : Db where
  header := storedHeader content
  employees :=
    if !allocated then none
    else if content.length < headerSize + employeeSize * (storedHeader content).count.toNat then
      none
    else some (storedEmployees (storedHeader content).count.toNat content)

variable {args : Args} {env : Env} {dbfd : Nat} {content : List UInt8}

/-- With a valid header `main` goes on with the records of the file, or with NULL when they could
not be read.
-/
theorem process_loaded (args : Args) (env : Env) (dbfd : Nat) (long : headerSize ≤ content.length)
    : ∃ file,
        file.content = content
        ∧ process args env dbfd (behindHeader content long) (storedHeader content)
          = afterLoading args env dbfd file (openedDb env.employeesAllocated content) := by
  have read := readEmployees_behindHeader (Int.natCast_nonneg dbfd) long (storedHeader content)
    env.employeesAllocated
  change (readEmployees _ _ _ _).map Prod.fst = _ at read
  cases result : readEmployees dbfd env.employeesAllocated (behindHeader content long)
      (storedHeader content) with
  | error reason =>
      refine ⟨behindHeader content long, rfl, ?_⟩
      rw [result, Except.map] at read
      have failed : (openedDb env.employeesAllocated content).employees = none := by
        rw [openedDb]
        split_ifs at read ⊢ <;> simp_all
      simp only [process, result]
      rw [← failed]
      rfl
  | ok loaded =>
      obtain ⟨employees, file⟩ := loaded
      refine ⟨file, readEmployees_content result, ?_⟩
      rw [result, Except.map] at read
      have stored : (openedDb env.employeesAllocated content).employees = some employees := by
        rw [openedDb]
        split_ifs at read ⊢
        simp_all
      simp only [process, result]
      rw [← stored]
      rfl

/-- With permission and memory a run goes on when the header is valid. -/
theorem main_valid (given : args.pathGiven) (existing : args.newfile = false)
    (permitted : env.permitted) (allocated : env.headerAllocated) (valid : ValidHeader content)
    : ∃ file,
        file.content = content
        ∧ main args env dbfd (some content)
          = afterLoading args env dbfd file (openedDb env.employeesAllocated content) := by
  obtain ⟨file, same, run⟩ := process_loaded args env dbfd valid.long
  have validated : validateDbHeader dbfd true (.opened content)
      = .ok (storedHeader content, behindHeader content valid.long) :=
    (validateDbHeader_ok_iff (Int.natCast_nonneg dbfd) content _ _).mpr ⟨valid, rfl, rfl⟩
  refine ⟨file, same, ?_⟩
  simpa [main, given, existing, openDbFile, permitted, allocated, validated] using run

/-- When adding fails, so does the run, and the file stays. -/
theorem afterLoading_failed {file : OpenFile UInt8} {db : Db} {text : List UInt8}
    {ending : Ending} (asked : args.addString = some text)
    (failed : addArgument env.resize db text = .error ending)
    : afterLoading args env dbfd file db = ⟨some file.content, ending, []⟩ := by
  simp only [afterLoading, asked, failed]

/-- When it succeeds, the run goes on with the added record. -/
theorem afterLoading_added {file : OpenFile UInt8} {db added : Db} {text : List UInt8}
    (asked : args.addString = some text)
    (adds : addArgument env.resize db text = .ok added)
    : afterLoading args env dbfd file db = listAndSave args.list env dbfd file added := by
  simp only [afterLoading, asked, adds]

/-- Any other run on an existing file ends with an error before it does anything. -/
theorem main_existing (given : args.pathGiven) (existing : args.newfile = false)
    : main args env dbfd (some content) = ⟨some content, .returned (-1), []⟩
      ∨ ValidHeader content
        ∧ ∃ file,
            file.content = content
            ∧ main args env dbfd (some content)
              = afterLoading args env dbfd file (openedDb env.employeesAllocated content) := by
  cases permitted : env.permitted with
  | false => simp [main, given, existing, openDbFile, permitted]
  | true =>
  cases validated : validateDbHeader dbfd env.headerAllocated (.opened content) with
  | error reason =>
      refine Or.inl ?_
      simp only [main, given, existing, openDbFile, permitted, validated, Bool.not_true,
        Bool.false_eq_true, if_false, if_true]
      rfl
  | ok opened =>
  cases allocated : env.headerAllocated with
  | false =>
      rw [allocated] at validated
      have notBad : ¬ (dbfd : Int) < 0 := by omega
      simp [validateDbHeader, Database.validateDbHeader, notBad] at validated
  | true =>
      rw [allocated] at validated
      obtain ⟨valid, -, -⟩ :=
        (validateDbHeader_ok_iff (Int.natCast_nonneg dbfd) content _ _).mp validated
      exact Or.inr ⟨valid, main_valid given existing permitted allocated valid⟩

-----------------------------------------------------------------------------------------
-- Adding by the fields of the string
-----------------------------------------------------------------------------------------

/-- The outcome of adding for a terminated string. -/
def addResult (db : Db) (text : List UInt8) : Except Ending Db :=
  let last := db.header.count.toNat - 1
  if fields text = [] then .error .missingField
  else
    match employeeAt db.employees last with
    | .error halt => .error (.halted halt)
    | .ok _ =>
        if (fields text).length < 3 then .error .missingField
        else .ok { db with employees := db.employees.map (·.set last (employeeOf text)) }

/-- On a terminated string the tokenizer calls find its first three fields, as far as there are
any.
-/
theorem addEmployee_terminated (db : Db) {text : List UInt8} (clean : nul ∉ text)
    (rest : List UInt8)
    : addEmployee db (text ++ nul :: rest) = addResult db text := by
  obtain ⟨memory1, save1, first, memory2, save2, second, edited, save3, third, call1, call2, call3,
    -, -, -, name, address, hours⟩ := strtok_three (by decide : nul ≠ comma) clean rest
  simp only [addEmployee, call1, call2, call3, addResult]
  rcases pieces : fields text with _ | ⟨piece1, _ | ⟨piece2, _ | ⟨piece3, more⟩⟩⟩
  · obtain rfl : first = none := by simpa [pieces] using name
    simp
  · obtain ⟨start1, rfl, -⟩ : ∃ start, first = some start ∧ _ := by simpa [pieces] using name
    obtain rfl : second = none := by simpa [pieces] using address
    cases employeeAt db.employees (db.header.count.toNat - 1) <;> simp
  · obtain ⟨start1, rfl, -⟩ : ∃ start, first = some start ∧ _ := by simpa [pieces] using name
    obtain ⟨start2, rfl, -⟩ : ∃ start, second = some start ∧ _ := by simpa [pieces] using address
    obtain rfl : third = none := by simpa [pieces] using hours
    cases employeeAt db.employees (db.header.count.toNat - 1) <;> simp
  · obtain ⟨start1, rfl, read1⟩ : ∃ start, first = some start ∧ _ := by
      simpa [pieces] using name
    obtain ⟨start2, rfl, read2⟩ : ∃ start, second = some start ∧ _ := by
      simpa [pieces] using address
    obtain ⟨start3, rfl, read3⟩ : ∃ start, third = some start ∧ _ := by
      simpa [pieces] using hours
    have employee := newEmployee_of_fields clean pieces read1 read2 read3
    have enough : ¬ (piece1 :: piece2 :: piece3 :: more).length < 3 := by simp
    cases employeeAt db.employees (db.header.count.toNat - 1) with
    | error halt => simp
    | ok _ => simp only [employee, reduceCtorEq, if_false, if_neg enough]

/-- Nothing can be added where no block is left. -/
theorem addResult_empty (header : DbHeader) (text : List UInt8)
    : ∃ ending,
        addResult ⟨header, some []⟩ text = .error ending
        ∧ ∀ code, ending ≠ .returned code := by
  by_cases none : fields text = []
  · exact ⟨.missingField, by rw [addResult, if_pos none], by simp⟩
  · exact ⟨.halted .outOfBounds, by simp [addResult, none, employeeAt], by simp⟩

/-- Where the block has a last record to fill, three fields fill it. -/
theorem addResult_grown {header : DbHeader} {records : List Employee} {added : Employee}
    (count : header.count.toNat = records.length + 1) (text : List UInt8)
    : addResult ⟨header, some (records ++ [added])⟩ text
      = if (fields text).length < 3 then .error .missingField
        else .ok ⟨header, some (records ++ [employeeOf text])⟩ := by
  have found : employeeAt (some (records ++ [added])) records.length = .ok added := by
    simp [employeeAt]
  have stored : (records ++ [added]).set records.length (employeeOf text)
      = records ++ [employeeOf text] := by
    rw [List.set_append_right _ _ (Nat.le_refl _)]
    simp
  simp only [addResult, count, Nat.add_sub_cancel, found, Option.map_some, stored]
  split_ifs with none few few
  · rfl
  · simp [none] at few
  · rfl
  · rfl

/-- When `realloc` returns a block, the record is added to what the pointer leads to. -/
theorem addArgument_resized {resize : Resize} (db : Db) {employees : Option (List Employee)}
    {text : List UInt8} (clean : nul ∉ text)
    (block : resized resize db.employees (db.header.count + 1).toNat = some employees)
    : addArgument resize db text
      = addResult ⟨{ db.header with count := db.header.count + 1 }, employees⟩ text := by
  simp only [addArgument, block]
  exact addEmployee_terminated _ clean []

/-- `realloc` in place gives the pointer's block one more record. -/
theorem resized_succ (fresh : Nat → Employee) (records : List Employee)
    : resized (.inPlace fresh) (some records) (records.length + 1)
      = some (some (records ++ [fresh records.length])) := by
  simp [resized, realloc_succ]

-----------------------------------------------------------------------------------------
-- What saving leaves
-----------------------------------------------------------------------------------------

/-- When the loop of `output_file` does not halt, it leaves the file so, by induction on the
remaining records.
-/
theorem writeEmployeesLeft_eq {outcomes : Nat → WriteOutcome} {i remaining : Nat}
    {file last : OpenFile UInt8} {employees rest : Option (List Employee)}
    {written : List (List UInt8 × WriteOutcome)}
    (result : writeEmployees outcomes id i remaining file employees = .ok (last, rest, written))
    : writeEmployeesLeft outcomes i remaining file employees = last := by
  induction remaining generalizing i file employees written with
  | zero =>
      simp only [writeEmployees, Except.ok.injEq, Prod.mk.injEq] at result
      exact result.1
  | succ remaining ih =>
      simp only [writeEmployees] at result
      split at result
      · cases result
      next employee current =>
      split at result
      · cases result
      next later loop =>
      cases result
      simp only [writeEmployeesLeft, current]
      exact ih loop

/-- Saving leaves the file so in any case. -/
theorem outputFileLeft_eq {outcomes : Nat → WriteOutcome} {file : OpenFile UInt8} {db : Db}
    {saved : Saved} (saving : outputFile outcomes dbfd file db = .ok saved)
    : outputFileLeft outcomes file db = saved.file := by
  have notBad : ¬ (dbfd : Int) < 0 := by omega
  simp only [outputFile, notBad, if_false] at saving
  split at saving
  · cases saving
  next loop =>
  cases saving
  exact writeEmployeesLeft_eq loop

/-- When the listing ends, or there is none, the run ends with saving. -/
theorem listAndSave_file {list : Bool} {file : OpenFile UInt8} {db : Db}
    (ends : list → ∃ shown, Database.listEmployees env.behind db = .ok shown)
    : (listAndSave list env dbfd file db).file
      = some (outputFileLeft env.outcomes file db).content := by
  obtain ⟨printed, listed⟩ : ∃ printed,
      (if list then Database.listEmployees env.behind db else .ok []) = .ok printed := by
    cases list with
    | false => exact ⟨[], rfl⟩
    | true => exact ends rfl
  simp only [listAndSave, listed]
  cases saving : outputFile env.outcomes dbfd file db with
  | error halt => rfl
  | ok saved => rw [outputFileLeft_eq saving]

/-- With the records saving succeeds, and so does the run. -/
theorem listAndSave_live {list : Bool} (dbfd : Nat) (file : OpenFile UInt8) {db : Db}
    {roster : Roster} (live : db.Represents roster) (all : ∀ i, env.outcomes i = .complete)
    (ends : list → ListingEnds env.behind roster.records)
    : ∃ printed,
        listAndSave list env dbfd file db
          = ⟨some (roster.encode ++ file.content.drop roster.encode.length), .returned 0,
              printed⟩ := by
  obtain ⟨printed, listed⟩ : ∃ printed,
      (if list then Database.listEmployees env.behind db else .ok []) = .ok printed := by
    cases list with
    | false => exact ⟨[], rfl⟩
    | true => exact (listEmployees_ok_iff live.holds).mpr (ends rfl)
  obtain ⟨saved, saving, content⟩ :=
    outputFile_content env.outcomes (Int.natCast_nonneg dbfd) file live all
  exact ⟨printed, by simp only [listAndSave, listed, saving, content]⟩

/-- When it halts, the file stays. -/
theorem listAndSave_halted {file : OpenFile UInt8} {db : Db} {halt : Halt}
    (halts : Database.listEmployees env.behind db = .error halt)
    : listAndSave true env dbfd file db = ⟨some file.content, .halted halt, []⟩ := by
  simp only [listAndSave, if_true, halts]

/-- With NULL for the records only the header is written. -/
theorem outputFileLeft_null (outcomes : Nat → WriteOutcome) (file : OpenFile UInt8)
    {header : DbHeader} (version : header.version = 1) (magic : header.magic = headerMagic)
    : outputFileLeft outcomes file ⟨header, none⟩
      = file.rewind.write (outcomes 0) (encodeHeader header.count.toNat) := by
  simp only [outputFileLeft, DbHeader.toNetwork_toBytes version magic]
  cases header.count.toNat <;> rfl

/-- With the records the roster's file is written over the start of the old contents. -/
theorem outputFileLeft_live {outcomes : Nat → WriteOutcome} (file : OpenFile UInt8) {db : Db}
    {roster : Roster} (live : db.Represents roster) (all : ∀ i, outcomes i = .complete)
    : (outputFileLeft outcomes file db).content
      = roster.encode ++ file.content.drop roster.encode.length := by
  obtain ⟨saved, saving, content⟩ :=
    outputFile_content outcomes (Int.natCast_nonneg 0) file live all
  rw [outputFileLeft_eq saving, content]

end LowlevelAcademy.Viewer
