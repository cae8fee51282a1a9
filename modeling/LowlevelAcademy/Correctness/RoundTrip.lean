import LowlevelAcademy.Database.Saving

/-! The file format between the two programs: what either program saves is loaded by both with
the same records. The server's saving leaves its own memory alone, up to the size field.
-/

namespace LowlevelAcademy.Correctness

open LowlevelAcademy.Foundations
open LowlevelAcademy.Database

/-- The two programs that share the file format. -/
inductive Program where
  | viewer
  | server
  deriving DecidableEq

/-- `output_file` of a program. -/
def Program.outputFile
    : Program → (Nat → WriteOutcome) → Int → OpenFile UInt8 → Db → Except Halt Saved
  | .viewer => Viewer.outputFile
  | .server => Database.outputFile

/-- `validate_db_header` of a program. -/
def Program.validateDbHeader
    : Program → Int → Bool → OpenFile UInt8 → Except LoadError (DbHeader × OpenFile UInt8)
  | .viewer => Viewer.validateDbHeader
  | .server => Database.validateDbHeader

/-- `read_employees` of a program. -/
def Program.readEmployees
    : Program → Int → Bool → OpenFile UInt8 → DbHeader
      → Except LoadError (List Employee × OpenFile UInt8)
  | .viewer => Viewer.readEmployees
  | .server => Database.readEmployees

/-- Both loading steps of a program on a freshly opened file. -/
def Program.load (reader : Program) : Int → List UInt8 → Except LoadError (Db × OpenFile UInt8) :=
  loadWith reader.validateDbHeader reader.readEmployees

/-- Whichever program saves the database, either program loads the same count and the same
records from the file.
-/
def RoundTrips (outcomes : Nat → WriteOutcome) (fd : Int) (file : OpenFile UInt8) (db : Db)
    : Prop :=
  ∀ writer reader : Program, ∃ saved loaded last,
    writer.outputFile outcomes fd file db = .ok saved
    ∧ reader.load fd saved.file.content = .ok (loaded, last)
    ∧ loaded.header.count = db.header.count
    ∧ loaded.employees = db.employees

/-- The server's saving leaves header and records in memory as they were, with the size of the
saved file in the size field.
-/
def KeepsMemory (outcomes : Nat → WriteOutcome) (fd : Int) (file : OpenFile UInt8) (db : Db)
    : Prop :=
  ∃ saved,
    Database.outputFile outcomes fd file db = .ok saved
    ∧ saved.db.employees = db.employees
    ∧ saved.db.header
      = { db.header with
          filesize := UInt32.ofNat (headerSize + employeeSize * db.header.count.toNat) }

variable {outcomes : Nat → WriteOutcome} {fd : Int} {file : OpenFile UInt8} {db : Db}
variable {roster : Roster}

/-- Both programs write the roster's file when they save over a file that is not longer. -/
private theorem saved_roster (writer : Program) (live : db.Represents roster) (valid : 0 ≤ fd)
    (complete : ∀ i, outcomes i = .complete)
    (short : file.content.length ≤ headerSize + employeeSize * roster.records.length)
    : ∃ saved,
        writer.outputFile outcomes fd file db = .ok saved
        ∧ saved.file.content = roster.encode := by
  have covered : file.content.drop roster.encode.length = [] := by
    rw [List.drop_eq_nil_iff, Roster.encode_length]
    exact short
  cases writer with
  | viewer =>
      obtain ⟨saved, result, content⟩ :=
        Viewer.outputFile_content outcomes valid file live complete
      rw [covered, List.append_nil] at content
      exact ⟨saved, result, content⟩
  | server =>
      obtain ⟨saved, result, -, content⟩ := outputFile_ok outcomes valid file live.holds
      have whole := content roster live complete
      rw [covered, List.append_nil] at whole
      exact ⟨saved, result, whole⟩

/-- Both programs load the roster's file. -/
private theorem load_encode (reader : Program) (roster : Roster) (valid : 0 ≤ fd)
    : ∃ last,
        reader.load fd roster.encode
          = .ok (⟨headerOf roster.records.length, some roster.records⟩, last) := by
  have stored := storedDb_encode_append roster []
  have loadable := (loadable_encode_append roster []).mpr rfl
  rw [List.append_nil] at stored loadable
  obtain ⟨last, loaded⟩ :=
    (loadDatabase_ok_iff valid roster.encode _).mpr ⟨loadable, stored.symm⟩
  cases reader <;> exact ⟨last, loaded⟩

/-- Saving and loading round-trips between the two programs, in all four combinations. -/
theorem roundTrips (live : db.Represents roster) (valid : 0 ≤ fd)
    (complete : ∀ i, outcomes i = .complete)
    (short : file.content.length ≤ headerSize + employeeSize * roster.records.length)
    : RoundTrips outcomes fd file db := by
  intro writer reader
  obtain ⟨saved, result, content⟩ := saved_roster writer live valid complete short
  obtain ⟨last, loaded⟩ := @load_encode fd reader roster valid
  rw [← content] at loaded
  exact ⟨saved, _, last, result, loaded,
    UInt16.toNat_inj.mp ((headerOf_count roster.bound).trans live.holds.count.symm),
    live.holds.employees.symm⟩

/-- The server's saving leaves its memory alone exactly when the new size reads the same in
both byte orders, since it puts the swapped size into the header.
-/
theorem keepsMemory_iff_swap (holds : db.Holds roster.records) (valid : 0 ≤ fd)
    : KeepsMemory outcomes fd file db
      ↔ swap32 (headerOf roster.records.length).filesize
        = (headerOf roster.records.length).filesize := by
  obtain ⟨saved, result, savedDb, -⟩ := outputFile_ok outcomes valid file holds
  have size : UInt32.ofNat (headerSize + employeeSize * db.header.count.toNat)
      = (headerOf roster.records.length).filesize := by
    rw [holds.count, headerOf]
  constructor
  · rintro ⟨other, again, -, header⟩
    rw [result] at again
    obtain rfl := Except.ok.inj again
    rw [savedDb, size] at header
    exact congrArg DbHeader.filesize header
  · intro same
    refine ⟨saved, result, by rw [savedDb, holds.employees], ?_⟩
    rw [savedDb, size]
    exact congrArg (fun filesize : UInt32 => { db.header with filesize := filesize }) same

/-- Everything the two programs promise about saving and loading holds exactly for databases
of 765 and of 17213 records: the round trip always works, but the server's saving leaves the
byte-swapped size in its header, which is the size itself only for these counts.
-/
theorem format_round_trip_iff (live : db.Represents roster) (valid : 0 ≤ fd)
    (complete : ∀ i, outcomes i = .complete)
    (short : file.content.length ≤ headerSize + employeeSize * roster.records.length)
    : RoundTrips outcomes fd file db ∧ KeepsMemory outcomes fd file db
      ↔ roster.records.length = 765 ∨ roster.records.length = 17213 := by
  rw [and_iff_right (roundTrips live valid complete short),
    keepsMemory_iff_swap live.holds valid, swap32_headerOf_filesize roster.bound]

/-- Saving a database of 765 equal records over an empty file keeps the promises. -/
theorem format_round_trip_765
    : let employee : Employee := ⟨fit 256 nul [], fit 256 nul [], 1⟩
      let db : Db := ⟨headerOf 765, some (List.replicate 765 employee)⟩
      RoundTrips (fun _ => .complete) 3 (.opened []) db
        ∧ KeepsMemory (fun _ => .complete) 3 (.opened []) db := by
  intro employee db
  have count : (List.replicate 765 employee).length = 765 := List.length_replicate
  have holds : db.Holds (List.replicate 765 employee) := ⟨rfl, by rw [count]; decide⟩
  exact (@format_round_trip_iff _ 3 (.opened []) db holds.roster ⟨holds, rfl, rfl⟩ (by decide)
    (fun _ => rfl) (Nat.zero_le _)).mpr (Or.inl count)

/-- Saving an empty database leaves the size 12 in the header as 0x0c000000. -/
theorem format_round_trip_empty
    : ¬ (RoundTrips (fun _ => .complete) 3 (.opened []) ⟨headerOf 0, some []⟩
      ∧ KeepsMemory (fun _ => .complete) 3 (.opened []) ⟨headerOf 0, some []⟩) := by
  have holds : Db.Holds ⟨headerOf 0, some []⟩ [] := ⟨rfl, rfl⟩
  rintro ⟨-, kept⟩
  have same : swap32 (headerOf 0).filesize = (headerOf 0).filesize :=
    (@keepsMemory_iff_swap _ 3 _ _ holds.roster holds (by decide)).mp kept
  exact absurd same (by decide)

end LowlevelAcademy.Correctness
