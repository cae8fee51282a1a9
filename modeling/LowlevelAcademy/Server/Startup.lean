import LowlevelAcademy.Server.Disk
import LowlevelAcademy.Server.Traces

/-! Starting the server: it creates a new database file or opens an existing one, and enters
the poll loop with a header and the records it could read.
-/

namespace LowlevelAcademy.Server

open LowlevelAcademy.Foundations
open LowlevelAcademy.Database

/-- What the system calls before the poll loop return: whether the path may be opened or
created, and whether memory for the header and for the records is available.
-/
structure StartEnv where
  permitted : Bool
  headerAllocated : Bool
  employeesAllocated : Bool

/-- `create_db_file`; `path` is the content of the file at the path, if there is one. -/
def createDbFile (permitted : Bool) (path : Option (List UInt8)) : Option (OpenFile UInt8) :=
  match path with
  | some _ => none
  | none => if permitted then some (.opened []) else none

/-- `open_db_file` -/
def openDbFile (permitted : Bool) (path : Option (List UInt8)) : Option (OpenFile UInt8) :=
  match path with
  | some content => if permitted then some (.opened content) else none
  | none => none

/-- The header with which `main` goes on, from a new file or from an existing one; none when
it returns before the poll loop.
-/
def openDatabase (newfile : Bool) (env : StartEnv) (dbfd : Nat) (path : Option (List UInt8))
    : Option (DbHeader × OpenFile UInt8) :=
  if newfile then
    match createDbFile env.permitted path with
    | none => none
    | some file =>
        match createDbHeader env.headerAllocated with
        | .error _ => none
        | .ok header => some (header, file)
  else
    match openDbFile env.permitted path with
    | none => none
    | some file =>
        match validateDbHeader dbfd env.headerAllocated file with
        | .error _ => none
        | .ok opened => some opened

/-- `main` up to the call of `poll_loop`: the database and the file it passes, if it gets
there. A failure of `read_employees` is reported and otherwise ignored, so the loop is then
entered with the header as it is and with NULL for the records.
-/
def main (newfile : Bool) (env : StartEnv) (dbfd : Nat) (path : Option (List UInt8))
    : Option (Db × OpenFile UInt8) :=
  match openDatabase newfile env dbfd path with
  | none => none
  | some (header, file) =>
      match readEmployees dbfd env.employeesAllocated file header with
      | .ok (employees, file) => some (⟨header, some employees⟩, file)
      | .error .shortRead =>
          -- the records that were read are freed, but the offset has moved
          some (⟨header, none⟩, (file.read (header.count.toNat * employeeSize)).2)
      | .error _ => some (⟨header, none⟩, file)

/-- All system calls before the loop succeed. -/
def StartEnv.granted : StartEnv := ⟨true, true, true⟩

variable {env : StartEnv} {dbfd : Nat} {content : List UInt8} {db : Db}

/-- Once the header is there the loop is entered, with the records if they could be read. -/
theorem main_of_opened {newfile : Bool} {path : Option (List UInt8)} {header : DbHeader}
    {middle : OpenFile UInt8}
    (opened : openDatabase newfile env dbfd path = some (header, middle))
    : ∃ file,
        main newfile env dbfd path
          = some (⟨header,
              ((readEmployees dbfd env.employeesAllocated middle header).map
                Prod.fst).toOption⟩, file)
        ∧ file.content = middle.content := by
  simp only [main, opened]
  cases read : readEmployees dbfd env.employeesAllocated middle header with
  | ok loaded => exact ⟨loaded.2, rfl, readEmployees_content read⟩
  | error reason => cases reason <;> exact ⟨_, rfl, rfl⟩

/-- The records that the loop gets for an existing file: the stored ones, if there are enough
bytes and enough memory for them.
-/
def startedEmployees (allocated : Bool) (content : List UInt8) : Option (List Employee) :=
  let count := (storedHeader content).count.toNat
  if allocated ∧ headerSize + employeeSize * count ≤ content.length then
    some (storedEmployees count content)
  else none

/-- An existing file gets the server into the loop exactly when it can be opened and its header
can be read and is valid. The loop gets the stored header.
-/
theorem main_existing_iff
    : (∃ file, main false env dbfd (some content) = some (db, file))
      ↔ (env.permitted ∧ env.headerAllocated ∧ ValidHeader content)
        ∧ db = ⟨storedHeader content, startedEmployees env.employeesAllocated content⟩ := by
  have valid : (0 : Int) ≤ dbfd := Int.natCast_nonneg dbfd
  have enters (accepted : ValidHeader content) (permitted : env.permitted)
      (readable : env.headerAllocated)
      : ∃ file, main false env dbfd (some content)
          = some (⟨storedHeader content, startedEmployees env.employeesAllocated content⟩,
            file) := by
    have validated := (validateDbHeader_ok_iff valid content _ _).mpr ⟨accepted, rfl, rfl⟩
    have opened : openDatabase false env dbfd (some content)
        = some (storedHeader content, behindHeader content accepted.long) := by
      simp only [openDatabase, openDbFile, permitted, readable, Bool.false_eq_true, if_false,
        if_true, validated]
    obtain ⟨file, started, -⟩ := main_of_opened opened
    refine ⟨file, started.trans ?_⟩
    rw [readEmployees_behindHeader valid accepted.long, startedEmployees]
    cases env.employeesAllocated with
    | false => simp [Except.toOption]
    | true =>
        by_cases short : content.length
            < headerSize + employeeSize * (storedHeader content).count.toNat
        · rw [if_neg (by decide), if_pos short, if_neg fun enough => by omega]
          rfl
        · rw [if_neg (by decide), if_neg short, if_pos ⟨rfl, Nat.le_of_not_lt short⟩]
          rfl
  constructor
  · rintro ⟨file, started⟩
    have opened : env.permitted ∧ env.headerAllocated ∧ ValidHeader content := by
      cases permitted : env.permitted with
      | false => simp [main, openDatabase, openDbFile, permitted] at started
      | true =>
          cases readable : env.headerAllocated with
          | false =>
              have notBad : ¬ (dbfd : Int) < 0 := by omega
              simp [main, openDatabase, openDbFile, permitted, readable, validateDbHeader,
                notBad] at started
          | true =>
              cases validated : validateDbHeader dbfd true (.opened content) with
              | error reason =>
                  simp [main, openDatabase, openDbFile, permitted, readable, validated]
                    at started
              | ok result =>
                  obtain ⟨accepted, -⟩ := (validateDbHeader_ok_iff valid content _ _).mp validated
                  exact ⟨rfl, rfl, accepted⟩
    obtain ⟨again, same⟩ := enters opened.2.2 opened.1 opened.2.1
    rw [started] at same
    exact ⟨opened, (Prod.mk.inj (Option.some.inj same)).1⟩
  · rintro ⟨⟨permitted, readable, accepted⟩, rfl⟩
    exact enters accepted permitted readable

/-- A path without a file gets the server into the loop with the header of an empty database,
which is in memory only: the new file has no contents. There is a block for the records if
there is memory for one.
-/
theorem main_new {file : OpenFile UInt8} (started : main true env dbfd none = some (db, file))
    : db = ⟨headerOf 0, if env.employeesAllocated then some [] else none⟩
      ∧ file.content = [] := by
  obtain ⟨_ | _, _ | _, allocated⟩ := env
  · cases started
  · cases started
  · cases started
  · obtain ⟨again, entered, content⟩ := @main_of_opened _ dbfd true none _ _
      (show openDatabase true ⟨true, true, allocated⟩ dbfd none
        = some (headerOf 0, .opened []) from rfl)
    rw [started] at entered
    obtain ⟨rfl, rfl⟩ := Prod.mk.inj (Option.some.inj entered)
    refine ⟨?_, content⟩
    have notBad : ¬ (dbfd : Int) < 0 := by omega
    cases allocated <;>
      simp [readEmployees, notBad, headerOf, OpenFile.opened, employeesOfBytes, Except.map,
        Except.toOption]

/-- With memory for the records it is the empty database. -/
theorem main_new_empty {file : OpenFile UInt8} (allocated : env.employeesAllocated)
    (started : main true env dbfd none = some (db, file))
    : db = ⟨headerOf 0, some []⟩ ∧ file.content = [] := by
  obtain ⟨same, empty⟩ := main_new started
  rw [if_pos allocated] at same
  exact ⟨same, empty⟩

/-- On a new file the first client can greet and add a record. -/
theorem main_new_adds
    : ∃ db file steps server,
        main true .granted 3 none = some (db, file)
        ∧ file.content = []
        ∧ RecordedRun 3 WritesComplete (startServer db file 4) steps server
        ∧ ∃ step ∈ steps, AddsRecord step.before step.env := by
  obtain ⟨file, started, -⟩ := @main_of_opened .granted 3 true none _ _ rfl
  obtain ⟨same, empty⟩ := main_new_empty rfl started
  rw [same] at started
  obtain ⟨history, server, -, -, run, one, -⟩ := first_add_run 3 file 4
    (show Db.Holds ⟨headerOf 0, some []⟩ [] from ⟨rfl, rfl⟩) (by decide)
    (show nul ∉ [97, 44, 98, 44, 49] by decide) (by decide) (by decide)
  obtain ⟨steps, rfl, recorded⟩ :=
    recordedRun_of_run (run_of_orderly (fun _ _ orderly => orderly.complete) run)
  exact ⟨_, file, steps, server, started, empty, recorded,
    recorded.exists_adds (by simp [one])⟩

end LowlevelAcademy.Server
