import LowlevelAcademy.Database.Records

/-! The database as its users see it, and the file format: a 12-byte header and 516 bytes for
each record, all numbers in network order.
-/

namespace LowlevelAcademy.Database

open LowlevelAcademy.Foundations

/-- An ordered roster of records, as many as the 16-bit counter of the header can count. -/
structure Roster where
  records : List Employee
  bound : records.length ≤ 65535

/-- No records are few enough. -/
theorem nil_bound : ([] : List Employee).length ≤ 65535 := Nat.zero_le _

/-- The roster without records. -/
def Roster.empty : Roster := ⟨[], nil_bound⟩

/-- The bytes of a record in the file. -/
def encodeEmployee (employee : Employee) : List UInt8 :=
  employee.name.toList ++ employee.address.toList ++ beBytes 4 employee.hours.toNat

/-- The bytes of the header of a file with `count` records. -/
def encodeHeader (count : Nat) : List UInt8 :=
  beBytes 4 headerMagic.toNat ++ beBytes 2 1 ++ beBytes 2 count
    ++ beBytes 4 (headerSize + employeeSize * count)

/-- The file that stores a roster. -/
def Roster.encode (roster : Roster) : List UInt8 :=
  encodeHeader roster.records.length ++ roster.records.flatMap encodeEmployee

/-- The live database holds the records: the pointer leads to a block with exactly them, and
the counter of the header counts them.
-/
structure Db.Holds (db : Db) (records : List Employee) : Prop where
  employees : db.employees = some records
  count : db.header.count.toNat = records.length

/-- The live database stands for the roster: it holds its records under a valid header. The
`filesize` field is not part of it, since saving computes the size anew.
-/
structure Db.Represents (db : Db) (roster : Roster) : Prop where
  holds : db.Holds roster.records
  version : db.header.version = 1
  magic : db.header.magic = headerMagic

@[simp] theorem encodeEmployee_length (employee : Employee)
    : (encodeEmployee employee).length = employeeSize := by
  simp [encodeEmployee]

@[simp] theorem encodeHeader_length (count : Nat)
    : (encodeHeader count).length = headerSize := by
  simp [encodeHeader]

theorem flatMap_encodeEmployee_length (employees : List Employee)
    : (employees.flatMap encodeEmployee).length = employeeSize * employees.length := by
  induction employees with
  | nil => rfl
  | cons employee later ih =>
      simp only [List.flatMap_cons, List.length_append, encodeEmployee_length, ih,
        List.length_cons]
      ring

/-- The file of a roster is as long as its own header says. -/
theorem Roster.encode_length (roster : Roster)
    : roster.encode.length = headerSize + employeeSize * roster.records.length := by
  rw [Roster.encode, List.length_append, encodeHeader_length, flatMap_encodeEmployee_length]

/-- One more record makes the file one record longer. -/
theorem Roster.encode_length_append {roster extended : Roster} {employee : Employee}
    (records : extended.records = roster.records ++ [employee])
    : extended.encode.length = roster.encode.length + employeeSize := by
  rw [Roster.encode_length, Roster.encode_length, records, List.length_append,
    List.length_singleton]
  ring

/-- A held database has no more records than its counter can count. -/
theorem Db.Holds.bound {db : Db} {records : List Employee} (holds : db.Holds records)
    : records.length ≤ 65535 := by
  have bound := db.header.count.toNat_lt
  have count := holds.count
  omega

/-- The roster that a live database holds. -/
def Db.Holds.roster {db : Db} {records : List Employee} (holds : db.Holds records)
    : Roster :=
  ⟨records, holds.bound⟩

/-- The header of a file with `count` records, in host order. -/
def headerOf (count : Nat) : DbHeader where
  magic := headerMagic
  version := 1
  count := UInt16.ofNat count
  filesize := UInt32.ofNat (headerSize + employeeSize * count)

/-- The counter of a file's header counts its records. -/
theorem headerOf_count {count : Nat} (bound : count ≤ 65535)
    : (headerOf count).count.toNat = count := by
  rw [headerOf, UInt16.toNat_ofNat']
  omega

/-- The size in a file's header is the size of the whole file. -/
theorem headerOf_filesize {count : Nat} (bound : count ≤ 65535)
    : (headerOf count).filesize.toNat = headerSize + employeeSize * count := by
  rw [headerOf, UInt32.toNat_ofNat']
  simp only [headerSize, employeeSize]
  omega

/-- The in-place conversions of a header that is about to be written, with its new size. -/
def DbHeader.toNetwork (header : DbHeader) (newFilesize : UInt32) : DbHeader where
  version := htons header.version
  count := htons header.count
  magic := htonl header.magic
  filesize := htonl newFilesize

/-- A file's header in network order is stored as the file's header bytes. -/
theorem headerOf_toNetwork_toBytes {count : Nat} (bound : count ≤ 65535)
    : ((headerOf count).toNetwork (headerOf count).filesize).toBytes
      = encodeHeader count := by
  simp only [DbHeader.toNetwork, DbHeader.toBytes, leBytes_swap32, leBytes_swap16,
    headerOf_count bound, headerOf_filesize bound, encodeHeader]
  rfl

/-- The header bytes that saving writes for a valid header. -/
theorem DbHeader.toNetwork_toBytes {header : DbHeader} (version : header.version = 1)
    (magic : header.magic = headerMagic)
    : (header.toNetwork
        (UInt32.ofNat (headerSize + employeeSize * header.count.toNat))).toBytes
      = encodeHeader header.count.toNat := by
  have bound : header.count.toNat ≤ 65535 := Nat.le_of_lt_succ header.count.toNat_lt
  have count : header.count = (headerOf header.count.toNat).count :=
    UInt16.toNat_inj.mp (headerOf_count bound).symm
  rw [← headerOf_toNetwork_toBytes bound, DbHeader.toNetwork, version, magic,
    DbHeader.toNetwork, ← count]
  rfl

/-- The header bytes that saving a live database writes. -/
theorem Db.Represents.toNetwork_toBytes {db : Db} {roster : Roster}
    (live : db.Represents roster)
    : (db.header.toNetwork
        (UInt32.ofNat (headerSize + employeeSize * roster.records.length))).toBytes
      = encodeHeader roster.records.length := by
  rw [← live.holds.count]
  exact DbHeader.toNetwork_toBytes live.version live.magic

/-- The bytes of a live database: its header with the size field it has, and its records, all
numbers in network order.
-/
def Db.encode (db : Db) : List UInt8 :=
  (db.header.toNetwork db.header.filesize).toBytes
    ++ (db.employees.getD []).flatMap encodeEmployee

/-- A live database has the bytes of its roster's file exactly when its size field is the size
of the file.
-/
theorem Db.Represents.encode_eq_iff {db : Db} {roster : Roster} (live : db.Represents roster)
    : db.encode = roster.encode
      ↔ db.header.filesize = (headerOf roster.records.length).filesize := by
  rw [Db.encode, Roster.encode, ← live.toNetwork_toBytes, live.holds.employees,
    Option.getD_some, List.append_left_inj]
  simp only [DbHeader.toBytes, DbHeader.toNetwork, List.append_right_inj]
  constructor
  · intro same
    have swapped := congrArg swap32 (leBytes32_inj same)
    rwa [swap32_swap32, swap32_swap32] at swapped
  · intro same
    rw [same]
    rfl

/-- Sizes of database files that read the same in both byte orders, by their digits. -/
private theorem count_of_digits {count outer inner : Nat} (bound : count ≤ 65535)
    (small : inner < 256) (size : 12 + 516 * count = 16777217 * outer + 65792 * inner)
    : count = 765 ∨ count = 17213 := by
  have top : outer ≤ 2 := by omega
  interval_cases outer <;> omega

/-- The size of a database file reads the same in both byte orders for two counts only. -/
theorem swap32_headerOf_filesize {count : Nat} (bound : count ≤ 65535)
    : swap32 (headerOf count).filesize = (headerOf count).filesize
      ↔ count = 765 ∨ count = 17213 := by
  rw [swap32_eq_self_iff, headerOf_filesize bound]
  constructor
  · rintro ⟨outer, -, inner, small, size⟩
    exact count_of_digits bound small size
  · rintro (rfl | rfl)
    · exact ⟨0, by decide, 6, by decide, by decide⟩
    · exact ⟨0, by decide, 135, by decide, by decide⟩

/-- The record with its hours swapped is stored as the file's bytes of the record. -/
theorem Employee.toBytes_htonl (employee : Employee)
    : ({ employee with hours := htonl employee.hours } : Employee).toBytes
      = encodeEmployee employee := by
  simp only [Employee.toBytes, encodeEmployee, leBytes_swap32]

/-- Stored file bytes of records are read back as the records with their hours swapped. -/
theorem employeesOfBytes_encoded (employees : List Employee) (rest : List UInt8)
    : (employeesOfBytes employees.length
        (employees.flatMap encodeEmployee ++ rest)).map
          (fun employee => { employee with hours := ntohl employee.hours })
      = employees := by
  have swapped := employeesOfBytes_flatMap
    (employees.map fun employee => { employee with hours := htonl employee.hours }) rest
  simp only [List.flatMap_map, Employee.toBytes_htonl, List.length_map] at swapped
  rw [swapped, List.map_map]
  simp [Function.comp_def]

end LowlevelAcademy.Database
