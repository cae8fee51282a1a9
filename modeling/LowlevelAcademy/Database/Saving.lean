import LowlevelAcademy.Database.Loading

/-! Saving: both programs rewrite the file from its start, swapping the live header and
records to network order in place. The server swaps them back, the viewer does not.
-/

namespace LowlevelAcademy.Database

open LowlevelAcademy.Foundations

/-- What saving leaves behind. `written` lists the `write` calls on the file, in order. -/
structure Saved where
  file : OpenFile UInt8
  db : Db
  written : List (List UInt8 × WriteOutcome)

/-- The loop of `output_file` over the records from index `i` on: each record's hours are
swapped in place, the record is written, and `after` is what the loop then does to the
swapped hours. `outcomes` tells how each `write` call ends; the results are not looked at.
-/
def writeEmployees (outcomes : Nat → WriteOutcome) (after : UInt32 → UInt32)
    : Nat → Nat → OpenFile UInt8 → Option (List Employee)
      → Except Halt (OpenFile UInt8 × Option (List Employee) × List (List UInt8 × WriteOutcome))
  | _, 0, file, employees => .ok (file, employees, [])
  | i, remaining + 1, file, employees =>
      match employeeAt employees i with
      | .error halt => .error halt
      | .ok employee =>
          let swapped := { employee with hours := htonl employee.hours }
          let written := (swapped.toBytes, outcomes (i + 1))
          let restored := { swapped with hours := after swapped.hours }
          match writeEmployees outcomes after (i + 1) remaining
              (file.write written.2 written.1) (employees.map (·.set i restored)) with
          | .error halt => .error halt
          | .ok (file, employees, later) => .ok (file, employees, written :: later)

/-- `output_file` of the server. -/
def outputFile (outcomes : Nat → WriteOutcome) (fd : Int) (file : OpenFile UInt8) (db : Db)
    : Except Halt Saved :=
  if fd < 0 then .ok ⟨file, db, []⟩
  else
    let hostCount := db.header.count.toNat
    let newFilesize := UInt32.ofNat (headerSize + employeeSize * hostCount)
    let header := db.header.toNetwork newFilesize
    let written := (header.toBytes, outcomes 0)
    match writeEmployees outcomes ntohl 0 hostCount
        (file.rewind.write written.2 written.1) db.employees with
    | .error halt => .error halt
    | .ok (file, employees, later) =>
        let header : DbHeader := {
          version := ntohs header.version
          count := ntohs header.count
          magic := ntohl header.magic
          -- the host-order size is swapped here, not the header's own field
          filesize := ntohl newFilesize
        }
        .ok ⟨file, ⟨header, employees⟩, written :: later⟩

-----------------------------------------------------------------------------------------
-- What the record loop writes
-----------------------------------------------------------------------------------------

/-- Over a block that holds the remaining records the loop never fails; the block keeps them
with the hours it leaves, and each of them is passed to one write with its file bytes.
Witness: induction on the remaining records, `front` being the ones already passed.
-/
theorem writeEmployees_ok (outcomes : Nat → WriteOutcome) (after : UInt32 → UInt32)
    (front todo : List Employee) (file : OpenFile UInt8)
    : ∃ last written,
        writeEmployees outcomes after front.length todo.length file (some (front ++ todo))
          = .ok (last,
              some (front ++ todo.map fun employee =>
                { employee with hours := after (htonl employee.hours) }),
              written)
        ∧ written.map Prod.fst = todo.map encodeEmployee
        ∧ ((∀ i, outcomes i = .complete)
          → last = file.write .complete (todo.flatMap encodeEmployee)) := by
  induction todo generalizing front file with
  | nil => exact ⟨file, [], by simp [writeEmployees], rfl, fun _ => by simp⟩
  | cons employee later ih =>
      have current : employeeAt (some (front ++ employee :: later)) front.length
          = .ok employee := by
        simp [employeeAt]
      let restored := { employee with hours := after (htonl employee.hours) }
      have stored : (front ++ employee :: later).set front.length restored
          = front ++ [restored] ++ later := by
        rw [List.set_append_right _ _ (Nat.le_refl _)]
        simp
      obtain ⟨last, written, rest, data, complete⟩ :=
        ih (front ++ [restored])
          (file.write (outcomes (front.length + 1)) (encodeEmployee employee))
      refine ⟨last, (encodeEmployee employee, outcomes (front.length + 1)) :: written, ?_,
        by rw [List.map_cons, List.map_cons, data], ?_⟩
      · simp only [List.length_append, List.length_singleton] at rest
        simp only [List.length_cons, writeEmployees, current, Employee.toBytes_htonl,
          Option.map_some]
        rw [show (front ++ employee :: later).set front.length
          { name := employee.name, address := employee.address,
            hours := after (htonl employee.hours) } = _ from stored, rest]
        simp [restored]
      · intro all
        rw [complete all, all, OpenFile.write_append, List.flatMap_cons]

/-- The size of the data of a `write` call, and how the call ends. -/
def callShape (call : List UInt8 × WriteOutcome) : Nat × WriteOutcome := (call.1.length, call.2)

/-- The loop makes one write for each record and leaves the file as its writes do, by induction
on the remaining records.
-/
theorem writeEmployees_calls {outcomes : Nat → WriteOutcome} {after : UInt32 → UInt32}
    {i remaining : Nat} {file last : OpenFile UInt8} {employees rest : Option (List Employee)}
    {written : List (List UInt8 × WriteOutcome)}
    (result
      : writeEmployees outcomes after i remaining file employees = .ok (last, rest, written))
    : written.map callShape
        = (List.range' (i + 1) remaining).map (fun j => (employeeSize, outcomes j))
      ∧ last = file.writeAll written := by
  induction remaining generalizing i file employees written with
  | zero =>
      simp only [writeEmployees, Except.ok.injEq, Prod.mk.injEq] at result
      obtain ⟨rfl, -, rfl⟩ := result
      exact ⟨rfl, rfl⟩
  | succ remaining ih =>
      simp only [writeEmployees] at result
      split at result
      · cases result
      next employee current =>
      split at result
      · cases result
      next later loop =>
      simp only [Except.ok.injEq, Prod.mk.injEq] at result
      obtain ⟨rfl, rfl, rfl⟩ := result
      obtain ⟨calls, final⟩ := ih loop
      refine ⟨?_, final⟩
      rw [List.map_cons, calls, List.range'_succ, List.map_cons, callShape,
        Employee.toBytes_length]

/-- What the loop writes and leaves in memory does not depend on the file, by induction on the
remaining records.
-/
theorem writeEmployees_congr (outcomes : Nat → WriteOutcome) (after : UInt32 → UInt32)
    (i remaining : Nat) (file other : OpenFile UInt8) (employees : Option (List Employee))
    : (writeEmployees outcomes after i remaining file employees).map Prod.snd
      = (writeEmployees outcomes after i remaining other employees).map Prod.snd := by
  induction remaining generalizing i file other employees with
  | zero => rfl
  | succ remaining ih =>
      simp only [writeEmployees]
      cases employeeAt employees i with
      | error halt => rfl
      | ok employee =>
          let swapped : Employee := { employee with hours := htonl employee.hours }
          let restored := { swapped with hours := after swapped.hours }
          have same := ih (i + 1) (file.write (outcomes (i + 1)) swapped.toBytes)
            (other.write (outcomes (i + 1)) swapped.toBytes) (employees.map (·.set i restored))
          simp only [swapped, restored] at same ⊢
          split <;> split <;> simp_all [Except.map]

/-- What saving writes and leaves in memory does not depend on the file. -/
theorem outputFile_congr (outcomes : Nat → WriteOutcome) (fd : Int)
    (file other : OpenFile UInt8) (db : Db)
    : (outputFile outcomes fd file db).map (fun saved => (saved.db, saved.written))
      = (outputFile outcomes fd other db).map (fun saved => (saved.db, saved.written)) := by
  simp only [outputFile]
  split_ifs
  · rfl
  · have same := writeEmployees_congr outcomes ntohl 0 db.header.count.toNat
      (file.rewind.write (outcomes 0) (db.header.toNetwork
        (UInt32.ofNat (headerSize + employeeSize * db.header.count.toNat))).toBytes)
      (other.rewind.write (outcomes 0) (db.header.toNetwork
        (UInt32.ofNat (headerSize + employeeSize * db.header.count.toNat))).toBytes)
      db.employees
    split <;> split <;> simp_all [Except.map]

/-- Completely writing a header and then records from the start of a file leaves the roster's
file followed by what lay behind.
-/
theorem saved_content (roster : Roster) (file : OpenFile UInt8)
    : ((file.rewind.write .complete (encodeHeader roster.records.length)).write .complete
        (roster.records.flatMap encodeEmployee)).content
      = roster.encode ++ file.content.drop roster.encode.length := by
  rw [OpenFile.write_append, OpenFile.rewind_write_content]
  rfl

/-- Saving a held database never fails. It leaves the records as they were and in the header
changes only the size field, to the byte-swapped new size; complete writes put the roster's
file over the start of the old contents.
-/
theorem outputFile_ok (outcomes : Nat → WriteOutcome) {fd : Int} (valid : 0 ≤ fd)
    (file : OpenFile UInt8) {db : Db} {records : List Employee} (holds : db.Holds records)
    : ∃ saved,
        outputFile outcomes fd file db = .ok saved
        ∧ saved.db
          = ⟨{ db.header with filesize := ntohl (headerOf records.length).filesize },
            some records⟩
        ∧ ∀ roster,
            db.Represents roster
            → (∀ i, outcomes i = .complete)
            → saved.file.content
              = roster.encode ++ file.content.drop roster.encode.length := by
  have notBad : ¬ fd < 0 := by omega
  have newFilesize : UInt32.ofNat (headerSize + employeeSize * records.length)
      = (headerOf records.length).filesize := rfl
  let header := db.header.toNetwork (headerOf records.length).filesize
  obtain ⟨last, later, loop, -, complete⟩ :=
    writeEmployees_ok outcomes ntohl [] records
      (file.rewind.write (outcomes 0) header.toBytes)
  have swappedBack : (records.map fun employee =>
      { employee with hours := ntohl (htonl employee.hours) }) = records := by
    simp
  simp only [List.nil_append, List.length_nil, swappedBack, header] at loop
  refine ⟨⟨last, ⟨{ db.header with filesize := ntohl (headerOf records.length).filesize },
    some records⟩, (header.toBytes, outcomes 0) :: later⟩, ?_, rfl, ?_⟩
  · simp only [outputFile, notBad, if_false, holds.count, holds.employees, newFilesize, loop]
    simp only [header, DbHeader.toNetwork, swap16_swap16, swap32_swap32]
  · intro roster live all
    have same : records = roster.records :=
      Option.some.inj (holds.employees.symm.trans live.holds.employees)
    have headerBytes : header.toBytes = encodeHeader roster.records.length := by
      rw [← live.toNetwork_toBytes, ← same]
      rfl
    rw [complete all, all, headerBytes, same, saved_content]

/-- Every write of a save of so many records covers its data: twelve bytes for the header, and
516 for each record.
-/
def SaveCovers (outcomes : Nat → WriteOutcome) (count : Nat) : Prop :=
  (outcomes 0).Covers headerSize ∧ ∀ i < count, (outcomes (i + 1)).Covers employeeSize

/-- Saving makes one write for the header and one for each record, from the start of the file.
-/
theorem outputFile_calls {outcomes : Nat → WriteOutcome} {fd : Int} (valid : 0 ≤ fd)
    {file : OpenFile UInt8} {db : Db} {saved : Saved}
    (saving : outputFile outcomes fd file db = .ok saved)
    : saved.written.map callShape
        = (headerSize, outcomes 0)
          :: (List.range db.header.count.toNat).map (fun i => (employeeSize, outcomes (i + 1)))
      ∧ saved.file = file.rewind.writeAll saved.written := by
  have notBad : ¬ fd < 0 := by omega
  simp only [outputFile, notBad, if_false] at saving
  split at saving
  · cases saving
  next last employees later loop =>
  obtain rfl := Except.ok.inj saving
  obtain ⟨calls, final⟩ := writeEmployees_calls loop
  refine ⟨?_, final⟩
  rw [List.map_cons, calls, List.range'_eq_map_range, List.map_map, callShape,
    DbHeader.toBytes_length]
  congr 2
  funext k
  simp only [Function.comp_apply, Nat.zero_add, Nat.add_comm]

/-- The writes of a save have the size of the file that they are meant to write. -/
theorem outputFile_size {outcomes : Nat → WriteOutcome} {fd : Int} (valid : 0 ≤ fd)
    {file : OpenFile UInt8} {db : Db} {saved : Saved}
    (saving : outputFile outcomes fd file db = .ok saved)
    : (saved.written.map Prod.fst).flatten.length
      = headerSize + employeeSize * db.header.count.toNat := by
  have sizes : (saved.written.map Prod.fst).map List.length
      = (saved.written.map callShape).map Prod.fst := by
    rw [List.map_map, List.map_map]
    rfl
  rw [List.length_flatten, sizes, (outputFile_calls valid saving).1]
  simp [Function.comp_def, Nat.mul_comm]

/-- The writes of a save cover their data exactly when those outcomes do. -/
theorem outputFile_allCover {outcomes : Nat → WriteOutcome} {fd : Int} (valid : 0 ≤ fd)
    {file : OpenFile UInt8} {db : Db} {saved : Saved}
    (saving : outputFile outcomes fd file db = .ok saved)
    : AllCover saved.written ↔ SaveCovers outcomes db.header.count.toNat := by
  have shapes : AllCover saved.written
      ↔ ∀ shape ∈ saved.written.map callShape, shape.2.Covers shape.1 := by
    rw [List.forall_mem_map]
    rfl
  rw [shapes, (outputFile_calls valid saving).1, List.forall_mem_cons, List.forall_mem_map]
  simp only [List.mem_range, SaveCovers]

/-- The data that saving a live database passes to its writes is the roster's file. -/
theorem outputFile_written {outcomes : Nat → WriteOutcome} {fd : Int} (valid : 0 ≤ fd)
    {file : OpenFile UInt8} {db : Db} {roster : Roster} (live : db.Represents roster)
    {saved : Saved} (saving : outputFile outcomes fd file db = .ok saved)
    : (saved.written.map Prod.fst).flatten = roster.encode := by
  have notBad : ¬ fd < 0 := by omega
  have header := live.toNetwork_toBytes
  rw [← live.holds.count] at header
  obtain ⟨last, later, loop, data, -⟩ :=
    writeEmployees_ok outcomes ntohl [] roster.records
      (file.rewind.write (outcomes 0) (encodeHeader db.header.count.toNat))
  simp only [List.nil_append, List.length_nil, ← live.holds.employees, ← live.holds.count]
    at loop
  simp only [outputFile, notBad, if_false, header, loop, Except.ok.injEq] at saving
  rw [← saving, List.map_cons, List.flatten_cons, data, Roster.encode, live.holds.count,
    List.flatMap_def]

end LowlevelAcademy.Database

namespace LowlevelAcademy.Viewer

open LowlevelAcademy.Foundations
open LowlevelAcademy.Database

/-- `validate_db_header` of the viewer: the same code as the server's. -/
def validateDbHeader : Int → Bool → OpenFile UInt8 → Except LoadError (DbHeader × OpenFile UInt8) :=
  Database.validateDbHeader

/-- `read_employees` of the viewer: the same code as the server's. -/
def readEmployees
    : Int → Bool → OpenFile UInt8 → DbHeader → Except LoadError (List Employee × OpenFile UInt8) :=
  Database.readEmployees

/-- `output_file` of the viewer: header and records stay in network order afterwards. -/
def outputFile (outcomes : Nat → WriteOutcome) (fd : Int) (file : OpenFile UInt8) (db : Db)
    : Except Halt Saved :=
  if fd < 0 then .ok ⟨file, db, []⟩
  else
    let hostCount := db.header.count.toNat
    let newFilesize := UInt32.ofNat (headerSize + employeeSize * hostCount)
    let header := db.header.toNetwork newFilesize
    let written := (header.toBytes, outcomes 0)
    match writeEmployees outcomes id 0 hostCount
        (file.rewind.write written.2 written.1) db.employees with
    | .error halt => .error halt
    | .ok (file, employees, later) => .ok ⟨file, ⟨header, employees⟩, written :: later⟩

/-- The viewer's saving writes the same file as the server's. -/
theorem outputFile_content (outcomes : Nat → WriteOutcome) {fd : Int} (valid : 0 ≤ fd)
    (file : OpenFile UInt8) {db : Db} {roster : Roster} (live : db.Represents roster)
    (all : ∀ i, outcomes i = .complete)
    : ∃ saved,
        outputFile outcomes fd file db = .ok saved
        ∧ saved.file.content
          = roster.encode ++ file.content.drop roster.encode.length := by
  have notBad : ¬ fd < 0 := by omega
  obtain ⟨last, later, loop, -, complete⟩ :=
    writeEmployees_ok outcomes id [] roster.records
      (file.rewind.write .complete (encodeHeader roster.records.length))
  simp only [List.nil_append, List.length_nil, ← live.holds.employees, ← live.holds.count]
    at loop
  have content : last.content
      = roster.encode ++ file.content.drop roster.encode.length := by
    rw [complete all, saved_content]
  rw [live.holds.count] at loop
  simp only [outputFile, notBad, if_false, live.holds.count, live.toNetwork_toBytes, all 0,
    loop]
  exact ⟨_, rfl, content⟩

end LowlevelAcademy.Viewer
