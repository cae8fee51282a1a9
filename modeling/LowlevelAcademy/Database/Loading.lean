import LowlevelAcademy.Database.Format

/-! Opening a database: a new header, or the header and the records of an existing file. -/

namespace LowlevelAcademy.Database

open LowlevelAcademy.Foundations

/-- The ways in which opening a database reports `STATUS_ERROR`, one for each message. -/
inductive LoadError where
  | badFd
  | mallocFailed
  | shortRead
  | headerVersion
  | headerMagic
  | corrupted
  deriving DecidableEq

/-- `create_db_header`: the header of an empty database. It goes to memory only; the
descriptor of the new file is not used.
-/
def createDbHeader (allocated : Bool) : Except LoadError DbHeader :=
  if !allocated then .error .mallocFailed
  else .ok { magic := headerMagic, version := 1, count := 0, filesize := 12 }

/-- The four in-place conversions of a header that was just read. -/
def DbHeader.toHost (stored : DbHeader) : DbHeader where
  magic := ntohl stored.magic
  version := ntohs stored.version
  count := ntohs stored.count
  filesize := ntohl stored.filesize

/-- `validate_db_header`: reads the header at the current offset and checks its version, its
magic number and the file's real size. `allocated` tells whether `calloc` succeeds.
-/
def validateDbHeader (fd : Int) (allocated : Bool) (file : OpenFile UInt8)
    : Except LoadError (DbHeader × OpenFile UInt8) :=
  if fd < 0 then .error .badFd
  else if !allocated then .error .mallocFailed
  else
    let (data, file) := file.read headerSize
    if data.length ≠ headerSize then .error .shortRead
    else
      let header := (DbHeader.ofBytes data).toHost
      if header.version ≠ 1 then .error .headerVersion
      else if header.magic ≠ headerMagic then .error .headerMagic
      -- `fstat` gives the real size of the file
      else if header.filesize.toNat ≠ file.content.length then .error .corrupted
      else .ok (header, file)

/-- `read_employees`: reads as many records as the header counts and brings their hours into
host order. Allocating zero records gives a block without elements, not NULL.
-/
def readEmployees (fd : Int) (allocated : Bool) (file : OpenFile UInt8) (header : DbHeader)
    : Except LoadError (List Employee × OpenFile UInt8) :=
  if fd < 0 then .error .badFd
  else
    let count := header.count.toNat
    if !allocated then .error .mallocFailed
    else
      let (data, file) := file.read (count * employeeSize)
      if data.length ≠ count * employeeSize then .error .shortRead
      else
        let employees := employeesOfBytes count data
        .ok (employees.map fun employee => { employee with hours := ntohl employee.hours },
          file)

/-- The two loading steps of a program, `validate` and `read`, on a freshly opened file. -/
def loadWith
    (validate : Int → Bool → OpenFile UInt8 → Except LoadError (DbHeader × OpenFile UInt8))
    (read
      : Int → Bool → OpenFile UInt8 → DbHeader
        → Except LoadError (List Employee × OpenFile UInt8))
    (fd : Int) (content : List UInt8)
    : Except LoadError (Db × OpenFile UInt8) :=
  match validate fd true (.opened content) with
  | .error reason => .error reason
  | .ok (header, file) =>
      match read fd true file header with
      | .error reason => .error reason
      | .ok (employees, file) => .ok (⟨header, some employees⟩, file)

/-- Both loading steps of the server, as a restart performs them. -/
def loadDatabase : Int → List UInt8 → Except LoadError (Db × OpenFile UInt8) :=
  loadWith validateDbHeader readEmployees

-----------------------------------------------------------------------------------------
-- What the loader accepts
-----------------------------------------------------------------------------------------

/-- The header stored in the first twelve bytes of a file, in host order. -/
def storedHeader (content : List UInt8) : DbHeader :=
  (DbHeader.ofBytes (content.take headerSize)).toHost

/-- The first `count` records stored behind the header of a file. -/
def storedEmployees (count : Nat) (content : List UInt8) : List Employee :=
  (employeesOfBytes count (slice headerSize (count * employeeSize) content)).map
    fun employee => { employee with hours := ntohl employee.hours }

/-- What `validate_db_header` demands of a file. -/
structure ValidHeader (content : List UInt8) : Prop where
  long : headerSize ≤ content.length
  version : (storedHeader content).version = 1
  magic : (storedHeader content).magic = headerMagic
  filesize : (storedHeader content).filesize.toNat = content.length

/-- A file positioned behind its header. -/
def behindHeader (content : List UInt8) (long : headerSize ≤ content.length)
    : OpenFile UInt8 :=
  ⟨content, headerSize, long⟩

/-- Reading twelve bytes of a freshly opened file, when it has that many. -/
theorem read_header {content : List UInt8} (long : headerSize ≤ content.length)
    : (OpenFile.opened content).read headerSize
      = (content.take headerSize, behindHeader content long) := by
  refine Prod.ext rfl (OpenFile.ext rfl ?_)
  simp [OpenFile.opened, behindHeader, long]

/-- Validation of a freshly opened file succeeds exactly on files with a valid header; it
returns that header and leaves the file positioned behind it.
-/
theorem validateDbHeader_ok_iff {fd : Int} (valid : 0 ≤ fd) (content : List UInt8)
    (header : DbHeader) (file : OpenFile UInt8)
    : validateDbHeader fd true (.opened content) = .ok (header, file)
      ↔ ∃ accepted : ValidHeader content,
          header = storedHeader content ∧ file = behindHeader content accepted.long := by
  have notBad : ¬ fd < 0 := by omega
  by_cases long : headerSize ≤ content.length
  · have size : (content.take headerSize).length = headerSize := by simpa using long
    have stored : (DbHeader.ofBytes (content.take headerSize)).toHost = storedHeader content :=
      rfl
    have whole : (behindHeader content long).content = content := rfl
    simp only [validateDbHeader, notBad, if_false, Bool.not_true, Bool.false_eq_true,
      read_header long, size, ne_eq, not_true, stored, whole]
    constructor
    · intro accepted
      split_ifs at accepted with version magic filesize
      obtain ⟨rfl, rfl⟩ := Prod.mk.inj (Except.ok.inj accepted)
      exact ⟨⟨long, version, magic, filesize⟩, rfl, rfl⟩
    · rintro ⟨accepted, rfl, rfl⟩
      rw [if_neg (not_not.mpr accepted.version), if_neg (not_not.mpr accepted.magic),
        if_neg (not_not.mpr accepted.filesize)]
  · constructor
    · intro accepted
      have short : ((OpenFile.opened content).read headerSize).1.length ≠ headerSize := by
        simp only [OpenFile.read_data, OpenFile.opened, slice_length]
        omega
      simp only [validateDbHeader, notBad, if_false, Bool.not_true, Bool.false_eq_true,
        if_pos short, reduceCtorEq] at accepted
    · rintro ⟨accepted, -, -⟩
      exact absurd accepted.long long

/-- Reading the records does not change the file. -/
theorem readEmployees_content {fd : Int} {allocated : Bool} {header : DbHeader}
    {file after : OpenFile UInt8} {employees : List Employee}
    (read : readEmployees fd allocated file header = .ok (employees, after))
    : after.content = file.content := by
  simp only [readEmployees] at read
  split_ifs at read
  obtain ⟨-, rfl⟩ := Prod.mk.inj (Except.ok.inj read)
  rfl

/-- Reading the records behind a header succeeds exactly when the file is long enough. -/
theorem readEmployees_behindHeader {fd : Int} (valid : 0 ≤ fd) {content : List UInt8}
    (long : headerSize ≤ content.length) (header : DbHeader) (allocated : Bool)
    : (readEmployees fd allocated (behindHeader content long) header).map Prod.fst
      = if !allocated then .error .mallocFailed
        else if content.length < headerSize + employeeSize * header.count.toNat then
          .error .shortRead
        else .ok (storedEmployees header.count.toNat content) := by
  have notBad : ¬ fd < 0 := by omega
  cases allocated with
  | false => simp [readEmployees, notBad, Except.map]
  | true =>
      rw [Nat.mul_comm]
      by_cases short : content.length < headerSize + header.count.toNat * employeeSize
      · have missing : content.length - headerSize < header.count.toNat * employeeSize := by
          omega
        simp [readEmployees, notBad, behindHeader, missing, short, Except.map]
      · have enough : ¬ content.length - headerSize < header.count.toNat * employeeSize := by
          omega
        simp [readEmployees, notBad, behindHeader, enough, short, Except.map,
          storedEmployees]

/-- The live database that a file's header and records describe. -/
def storedDb (content : List UInt8) : Db where
  header := storedHeader content
  employees := some (storedEmployees (storedHeader content).count.toNat content)

/-- What both loading steps together demand of a file: a valid header and enough bytes for
the records it counts. More bytes may follow.
-/
structure Loadable (content : List UInt8) : Prop where
  header : ValidHeader content
  long
    : headerSize + employeeSize * (storedHeader content).count.toNat ≤ content.length

/-- Both loading steps succeed exactly on loadable files, with the stored database. -/
theorem loadDatabase_ok_iff {fd : Int} (valid : 0 ≤ fd) (content : List UInt8) (db : Db)
    : (∃ file, loadDatabase fd content = .ok (db, file))
      ↔ Loadable content ∧ db = storedDb content := by
  constructor
  · rintro ⟨file, loaded⟩
    simp only [loadDatabase, loadWith] at loaded
    split at loaded
    · cases loaded
    · next header middle validated =>
        obtain ⟨accepted, rfl, rfl⟩ := (validateDbHeader_ok_iff valid _ _ _).mp validated
        have read := readEmployees_behindHeader valid accepted.long (storedHeader content) true
        split at loaded
        · cases loaded
        · next employees last result =>
            obtain ⟨rfl, rfl⟩ := Prod.mk.inj (Except.ok.inj loaded)
            simp only [result, Except.map, Bool.not_true, Bool.false_eq_true, if_false] at read
            split_ifs at read with short
            · exact ⟨⟨accepted, Nat.le_of_not_lt short⟩, by rw [storedDb, Except.ok.inj read]⟩
  · rintro ⟨⟨accepted, long⟩, rfl⟩
    have validated := (validateDbHeader_ok_iff valid content _ _).mpr ⟨accepted, rfl, rfl⟩
    have read := readEmployees_behindHeader valid accepted.long (storedHeader content) true
    simp only [Bool.not_true, Bool.false_eq_true, if_false, if_neg (Nat.not_lt.mpr long)] at read
    cases result : readEmployees fd true (behindHeader content accepted.long)
        (storedHeader content) with
    | error reason => simp [result, Except.map] at read
    | ok loaded =>
        obtain ⟨employees, file⟩ := loaded
        simp only [result, Except.map, Except.ok.injEq] at read
        exact ⟨file, by simp only [loadDatabase, loadWith, validated, result, read]; rfl⟩

/-- A loaded database holds as many records as its header counts, under a valid header. -/
theorem Loadable.represents {content : List UInt8} (loadable : Loadable content)
    : ∃ roster, (storedDb content).Represents roster := by
  have count : (storedHeader content).count.toNat
      = (storedEmployees (storedHeader content).count.toNat content).length := by
    simp [storedEmployees]
  have holds : (storedDb content).Holds _ := ⟨rfl, count⟩
  exact ⟨holds.roster, holds, loadable.header.version, loadable.header.magic⟩

/-- A stored header is stored again as the same bytes while its size field is kept. -/
theorem storedHeader_toNetwork_toBytes {content : List UInt8}
    (long : headerSize ≤ content.length)
    : ((storedHeader content).toNetwork (storedHeader content).filesize).toBytes
      = content.take headerSize := by
  have size : (content.take headerSize).length = headerSize := by simpa using long
  have swapped : (storedHeader content).toNetwork (storedHeader content).filesize
      = DbHeader.ofBytes (content.take headerSize) := by
    simp only [storedHeader, DbHeader.toHost, DbHeader.toNetwork, swap16_swap16, swap32_swap32]
  rw [swapped, DbHeader.toBytes_ofBytes size]

/-- Stored records that end with their file are stored again as the same bytes. -/
theorem flatMap_storedEmployees {content : List UInt8} {count : Nat}
    (exact : content.length = headerSize + employeeSize * count)
    : (storedEmployees count content).flatMap encodeEmployee = content.drop headerSize := by
  have size : (content.drop headerSize).length = count * employeeSize := by
    rw [List.length_drop, exact, Nat.add_sub_cancel_left, Nat.mul_comm]
  have all : slice headerSize (count * employeeSize) content = content.drop headerSize := by
    rw [slice, ← size, List.take_length]
  have swapped (employee : Employee)
      : encodeEmployee { employee with hours := ntohl employee.hours } = employee.toBytes := by
    simp only [← Employee.toBytes_htonl, swap32_swap32]
  rw [storedEmployees, all, List.flatMap_map]
  simp only [swapped]
  exact flatMap_employeesOfBytes size

/-- A valid header of a file that ends with its records is the one that saving them writes. -/
theorem ValidHeader.encodeHeader_eq {content : List UInt8} (valid : ValidHeader content)
    (exact
      : content.length = headerSize + employeeSize * (storedHeader content).count.toNat)
    : encodeHeader (storedHeader content).count.toNat = content.take headerSize := by
  have filesize : (storedHeader content).filesize
      = UInt32.ofNat (headerSize + employeeSize * (storedHeader content).count.toNat) := by
    rw [← exact, ← valid.filesize, UInt32.ofNat_toNat]
  rw [← DbHeader.toNetwork_toBytes valid.version valid.magic, ← filesize,
    storedHeader_toNetwork_toBytes valid.long]

/-- The header that starts with a file's header bytes is read back. -/
theorem storedHeader_encodeHeader {count : Nat} (bound : count ≤ 65535)
    (rest : List UInt8)
    : storedHeader (encodeHeader count ++ rest) = headerOf count := by
  rw [storedHeader, List.take_left' (encodeHeader_length count),
    ← headerOf_toNetwork_toBytes bound, DbHeader.ofBytes_toBytes]
  simp [DbHeader.toHost, DbHeader.toNetwork]

/-- Records behind a header are read back, whatever follows them. -/
theorem storedEmployees_encoded {header : List UInt8} (size : header.length = headerSize)
    (employees : List Employee) (rest : List UInt8)
    : storedEmployees employees.length
        (header ++ (employees.flatMap encodeEmployee ++ rest))
      = employees := by
  have data : slice headerSize (employees.length * employeeSize)
      (header ++ (employees.flatMap encodeEmployee ++ rest))
      = employees.flatMap encodeEmployee := by
    rw [slice, List.drop_left' size]
    exact List.take_left' (by rw [flatMap_encodeEmployee_length, Nat.mul_comm])
  rw [storedEmployees, data]
  simpa using employeesOfBytes_encoded employees []

/-- A roster's file followed by more bytes is loadable exactly when nothing follows: the size
in its header must be the real size.
-/
theorem loadable_encode_append (roster : Roster) (rest : List UInt8)
    : Loadable (roster.encode ++ rest) ↔ rest = [] := by
  have header : storedHeader (roster.encode ++ rest) = headerOf roster.records.length := by
    rw [Roster.encode, List.append_assoc, storedHeader_encodeHeader roster.bound]
  have filesize : (headerOf roster.records.length).filesize.toNat = roster.encode.length := by
    rw [headerOf_filesize roster.bound, Roster.encode_length]
  constructor
  · intro loadable
    have same := loadable.header.filesize
    rw [header, filesize, List.length_append] at same
    exact List.length_eq_zero_iff.mp (by omega)
  · rintro rfl
    rw [List.append_nil] at header ⊢
    have long : headerSize + employeeSize * roster.records.length ≤ roster.encode.length := by
      rw [Roster.encode_length]
    refine ⟨⟨by omega, ?_, ?_, ?_⟩, ?_⟩
    · rw [header]; rfl
    · rw [header]; rfl
    · rw [header, filesize]
    · rw [header, headerOf_count roster.bound]; exact long

/-- The database stored in a roster's file stands for the roster. -/
theorem storedDb_encode_append (roster : Roster) (rest : List UInt8)
    : storedDb (roster.encode ++ rest)
      = ⟨headerOf roster.records.length, some roster.records⟩ := by
  simp only [storedDb, Roster.encode, List.append_assoc,
    storedHeader_encodeHeader roster.bound, headerOf_count roster.bound,
    storedEmployees_encoded (encodeHeader_length _)]

end LowlevelAcademy.Database
