import LowlevelAcademy.Database.Loading
import LowlevelAcademy.Server.Steps

/-! The live database and its file: what each step does to both, and when a restart would load
the live records again.
-/

namespace LowlevelAcademy.Server

open LowlevelAcademy.Foundations
open LowlevelAcademy.Database

/-- The database is live under a valid header and its file stores it, followed by `rest`. The
size in the stored header is the size of the stored roster.
-/
structure World.Stores (world : World) (roster : Roster) (rest : List UInt8) : Prop where
  live : world.db.Represents roster
  content : world.file.content = roster.encode ++ rest

/-- Starting again on the file loads the count and the records that are live. -/
def World.Reloads (world : World) : Prop :=
  ∀ fd : Int,
    0 ≤ fd
    → ∃ db file,
        loadDatabase fd world.file.content = .ok (db, file)
        ∧ db.header.count = world.db.header.count
        ∧ db.employees = world.db.employees

/-- The counter and the records of a live database are those of its roster. -/
theorem reloaded_of_represents {db : Db} {roster : Roster} (live : db.Represents roster)
    : (headerOf roster.records.length).count = db.header.count
      ∧ some roster.records = db.employees :=
  ⟨UInt16.toNat_inj.mp ((headerOf_count roster.bound).trans live.holds.count.symm),
    live.holds.employees.symm⟩

/-- A stored database is reloaded exactly when nothing follows it in the file. -/
theorem World.Stores.reloads_iff {world : World} {roster : Roster} {rest : List UInt8}
    (stores : world.Stores roster rest)
    : world.Reloads ↔ rest = [] := by
  rw [← loadable_encode_append roster rest]
  constructor
  · intro reloads
    obtain ⟨db, file, loaded, -⟩ := reloads 0 (le_refl 0)
    rw [stores.content] at loaded
    exact ((loadDatabase_ok_iff (le_refl 0) _ db).mp ⟨file, loaded⟩).1
  · intro loadable fd valid
    obtain ⟨file, loaded⟩ := (loadDatabase_ok_iff valid (roster.encode ++ rest) _).mpr
      ⟨loadable, rfl⟩
    rw [storedDb_encode_append] at loaded
    exact ⟨_, file, stores.content ▸ loaded, reloaded_of_represents stores.live⟩

/-- A loadable file that is no longer than its counted records need is the one that saving
those records writes.
-/
theorem Loadable.content_eq {content : List UInt8} (loadable : Loadable content)
    (short
      : content.length ≤ headerSize + employeeSize * (storedHeader content).count.toNat)
    : content
      = encodeHeader (storedHeader content).count.toNat
        ++ (storedEmployees (storedHeader content).count.toNat content).flatMap
          encodeEmployee := by
  have size := Nat.le_antisymm short loadable.long
  rw [loadable.header.encodeHeader_eq size, flatMap_storedEmployees size,
    List.take_append_drop]

/-- In a file that is no longer than the live records need, they are reloaded exactly when it
stores them.
-/
theorem World.reloads_iff {world : World} {roster : Roster} (live : world.db.Represents roster)
    (short : world.file.content.length ≤ headerSize + employeeSize * world.db.header.count.toNat)
    : world.Reloads ↔ world.file.content = roster.encode := by
  constructor
  · intro reloads
    obtain ⟨db, file, loaded, count, employees⟩ := reloads 0 (le_refl 0)
    obtain ⟨loadable, rfl⟩ := (loadDatabase_ok_iff (le_refl 0) _ db).mp ⟨file, loaded⟩
    rw [← count] at short
    have same : some (storedEmployees (storedHeader world.file.content).count.toNat
        world.file.content) = some roster.records :=
      employees.trans live.holds.employees
    have counted : (storedHeader world.file.content).count.toNat = roster.records.length :=
      (congrArg UInt16.toNat count).trans live.holds.count
    rw [Loadable.content_eq loadable short, Option.some.inj same, counted]
    rfl
  · intro stored
    have stores : world.Stores roster [] := ⟨live, by rw [stored, List.append_nil]⟩
    exact stores.reloads_iff.mpr rfl

/-- A database that was just loaded would be loaded again. -/
theorem reloads_of_loaded {fd : Int} (valid : 0 ≤ fd) {content : List UInt8} {db : Db}
    {file : OpenFile UInt8} (loaded : loadDatabase fd content = .ok (db, file))
    {world : World} (same : world.file.content = content) (live : world.db = db)
    : world.Reloads := by
  intro other otherValid
  have result := (loadDatabase_ok_iff valid content db).mp ⟨file, loaded⟩
  obtain ⟨again, reloaded⟩ := (loadDatabase_ok_iff otherValid content db).mpr result
  exact ⟨db, again, same ▸ reloaded, by rw [live], by rw [live]⟩

/-- Loading does not change the file. -/
theorem loadDatabase_content {fd : Int} {content : List UInt8} {db : Db}
    {file : OpenFile UInt8} (loaded : loadDatabase fd content = .ok (db, file))
    : file.content = content := by
  simp only [loadDatabase, loadWith] at loaded
  split at loaded
  · cases loaded
  next header middle validated =>
  split at loaded
  · cases loaded
  next employees last read =>
  obtain ⟨-, rfl⟩ := Prod.mk.inj (Except.ok.inj loaded)
  have first : middle.content = content := by
    simp only [validateDbHeader] at validated
    split_ifs at validated
    obtain ⟨-, rfl⟩ := Prod.mk.inj (Except.ok.inj validated)
    rfl
  simp only [readEmployees] at read
  split_ifs at read
  obtain ⟨-, rfl⟩ := Prod.mk.inj (Except.ok.inj read)
  exact first

-----------------------------------------------------------------------------------------
-- What a step does to the file
-----------------------------------------------------------------------------------------

variable {env : Env} {dbfd : Nat} {server : State} {next : World} {actions : List Action}
variable {roster : Roster}

/-- With complete writes a step of a server with a live database leaves database and file
alone, or it accepts one add request and stores the extended roster over the start of the old
contents. The live header is left with the byte-swapped size.
-/
theorem Turn.stores (turn : Turn env dbfd server actions next)
    (live : server.world.db.Represents roster) (complete : ∀ i, env.writes i = .complete)
    : (next.db = server.world.db ∧ next.file = server.world.file
        ∧ acceptedRequests actions = [])
      ∨ ∃ extended : Roster,
          (∃ employee, extended.records = roster.records ++ [employee])
          ∧ (∃ request, acceptedRequests actions = [request])
          ∧ next.db.header.filesize = ntohl (headerOf extended.records.length).filesize
          ∧ next.Stores extended (server.world.file.content.drop extended.encode.length) := by
  rcases turn.database with same | ⟨memory, accepts, one, -⟩
  · exact Or.inl same
  · obtain ⟨extended, more, after, filesize, content⟩ := accepts.represents live
    exact Or.inr ⟨extended, more, ⟨_, one⟩, filesize, after, content complete⟩

/-- Accepting an add request counts one record more. -/
theorem Accepts.count {world : World} {memory : List UInt8}
    (accepts : Accepts env dbfd world memory next)
    : next.db.header.count.toNat = world.db.header.count.toNat + 1 := by
  obtain ⟨earlier, holds, old⟩ := accepts.last
  rw [holds.count, old, List.length_append, List.length_singleton]

/-- Whatever happens to the writes, a file that is not longer than the counted records need
stays so: the save of one more record has that record's bytes to write, and no more.
-/
theorem Accepts.file_length {world : World} {memory : List UInt8}
    (accepts : Accepts env dbfd world memory next)
    (short
      : world.file.content.length ≤ headerSize + employeeSize * world.db.header.count.toNat)
    : next.file.content.length ≤ headerSize + employeeSize * next.db.header.count.toNat := by
  have valid : (0 : Int) ≤ dbfd := Int.natCast_nonneg dbfd
  have more := accepts.count
  obtain ⟨db, saved, earlier, -, -, -, saving, sameDb, sameFile⟩ := accepts.saves
  have count : next.db.header.count = db.header.count := by rw [sameDb]
  have size := outputFile_size valid saving
  rw [← count] at size
  rw [sameFile, (outputFile_calls valid saving).2, ← size]
  exact OpenFile.rewind_writeAll_length_le (by rw [size, more, Nat.mul_succ]; omega)

/-- After accepting, under a valid header, such a file stores the live database exactly when
every write of the save covered its data.
-/
theorem Accepts.stored_iff {world : World} {memory : List UInt8}
    (accepts : Accepts env dbfd world memory next) (version : world.db.header.version = 1)
    (magic : world.db.header.magic = headerMagic)
    (short
      : world.file.content.length ≤ headerSize + employeeSize * world.db.header.count.toNat)
    : ∃ roster : Roster,
        next.db.Represents roster
        ∧ (next.file.content = roster.encode
          ↔ SaveCovers env.writes (world.db.header.count.toNat + 1)) := by
  have valid : (0 : Int) ≤ dbfd := Int.natCast_nonneg dbfd
  have more := accepts.count
  obtain ⟨db, saved, earlier, header, holds, old, saving, sameDb, sameFile⟩ := accepts.saves
  have live : db.Represents holds.roster :=
    ⟨holds, by rw [header]; exact version, by rw [header]; exact magic⟩
  have count : next.db.header.count = db.header.count := by rw [sameDb]
  have size := outputFile_size valid saving
  have covers := outputFile_allCover valid saving
  rw [← count, more] at size covers
  refine ⟨holds.roster, ?_, ?_⟩
  · rw [sameDb]
    exact ⟨⟨holds.employees, holds.count⟩, live.version, live.magic⟩
  · rw [← covers, sameFile, (outputFile_calls valid saving).2,
      ← outputFile_written valid live saving]
    have positive : 0 < employeeSize := by decide
    exact OpenFile.rewind_writeAll_eq_iff (by rw [size, Nat.mul_succ]; omega)

/-- The file that stores a database is covered by the file of one more record. -/
theorem World.Stores.covered {world : World} {extended : Roster} {employee : Employee}
    (stores : world.Stores roster [])
    (records : extended.records = roster.records ++ [employee])
    : world.file.content.drop extended.encode.length = [] := by
  rw [stores.content, List.append_nil, List.drop_eq_nil_iff]
  exact Nat.le.intro (Roster.encode_length_append records).symm

/-- One step keeps the file in agreement with memory. -/
theorem stores_step {after : State} (agrees : ∃ roster, server.world.Stores roster [])
    (step : Step dbfd WritesComplete server actions after)
    : ∃ roster, after.world.Stores roster [] := by
  obtain ⟨roster, stores⟩ := agrees
  obtain ⟨env, complete, result⟩ := step
  rcases (pollLoopStep_turn result).stores stores.live complete with
      ⟨sameDb, sameFile, -⟩ | ⟨extended, ⟨employee, records⟩, -, -, stored⟩
  · exact ⟨roster, sameDb ▸ stores.live, sameFile ▸ stores.content⟩
  · rw [stores.covered records] at stored
    exact ⟨extended, stored⟩

end LowlevelAcademy.Server
