import LowlevelAcademy.Foundations.Words
import LowlevelAcademy.Foundations.Memory
import LowlevelAcademy.Foundations.Strings

/-! The employee database: its structures in memory, the abstract database they stand for,
and the file format that encodes it.
-/

namespace LowlevelAcademy.Database

open LowlevelAcademy.Foundations

/-- A `char` array of fixed size. -/
abbrev Bytes (size : Nat) := List.Vector UInt8 size

/-- The terminator of C strings and the delimiter of add strings. -/
abbrev nul : UInt8 := 0
abbrev comma : UInt8 := 44

/-- `HEADER_MAGIC` -/
def headerMagic : UInt32 := 0x4c4c4144

/-- `struct db_header_t` -/
structure DbHeader where
  magic : UInt32
  version : UInt16
  count : UInt16
  filesize : UInt32
  deriving DecidableEq

/-- `struct employee_t` -/
structure Employee where
  name : Bytes 256
  address : Bytes 256
  hours : UInt32
  deriving DecidableEq

/-- `sizeof(struct db_header_t)` -/
abbrev headerSize : Nat := 12

/-- `sizeof(struct employee_t)` -/
abbrev employeeSize : Nat := 516

/-- The status a function returns: `STATUS_SUCCESS` or `STATUS_ERROR`. -/
inductive Status where
  | success
  | error
  deriving DecidableEq

/-- Why the program stops without a defined next state: it exits, it goes through a NULL
array, it leaves an array's block, a string scan leaves the known memory, or a slot lookup
fails and `client_states[-1]` is used.
-/
inductive Halt where
  | exited
  | nullArray
  | outOfBounds
  | overrun
  | badSlot
  deriving DecidableEq

/-- The live header and the `employees` pointer with the block it points to; `none` is NULL.
-/
structure Db where
  header : DbHeader
  employees : Option (List Employee)
  deriving DecidableEq

/-- `employees[i]` -/
def employeeAt (employees : Option (List Employee)) (i : Nat) : Except Halt Employee :=
  match employees with
  | none => .error .nullArray
  | some block =>
      match block[i]? with
      | none => .error .outOfBounds
      | some employee => .ok employee

/-- The bytes of a header as the host stores it. -/
def DbHeader.toBytes (header : DbHeader) : List UInt8 :=
  leBytes 4 header.magic.toNat ++ leBytes 2 header.version.toNat
    ++ leBytes 2 header.count.toNat ++ leBytes 4 header.filesize.toNat

/-- The header the host sees in twelve stored bytes. -/
def DbHeader.ofBytes (bytes : List UInt8) : DbHeader where
  magic := load32 bytes
  version := load16 (bytes.drop 4)
  count := load16 (bytes.drop 6)
  filesize := load32 (bytes.drop 8)

/-- The bytes of a record as the host stores it. -/
def Employee.toBytes (employee : Employee) : List UInt8 :=
  employee.name.toList ++ employee.address.toList ++ leBytes 4 employee.hours.toNat

/-- The record the host sees in 516 stored bytes. -/
def Employee.ofBytes (bytes : List UInt8) : Employee where
  name := fit 256 nul (bytes.take 256)
  address := fit 256 nul ((bytes.drop 256).take 256)
  hours := load32 (bytes.drop 512)

/-- The first `count` records in stored bytes. -/
def employeesOfBytes : Nat → List UInt8 → List Employee
  | 0, _ => []
  | count + 1, bytes =>
      Employee.ofBytes bytes :: employeesOfBytes count (bytes.drop employeeSize)

/-- A copied field keeps its string. -/
theorem cString_copied (field : Bytes 256)
    : cString nul (strncpy nul 256 field.toList).toList = cString nul field.toList := by
  rw [cString_strncpy, List.take_of_length_le]
  calc (cString nul field.toList).length
      ≤ field.toList.length := (List.takeWhile_sublist _).length_le
    _ = 256 := field.toList_length

@[simp] theorem DbHeader.toBytes_length (header : DbHeader)
    : header.toBytes.length = headerSize := by
  simp [DbHeader.toBytes]

@[simp] theorem Employee.toBytes_length (employee : Employee)
    : employee.toBytes.length = employeeSize := by
  simp [Employee.toBytes]

@[simp] theorem DbHeader.ofBytes_toBytes (header : DbHeader)
    : DbHeader.ofBytes header.toBytes = header := by
  have version : header.toBytes.drop 4
      = leBytes 2 header.version.toNat
        ++ (leBytes 2 header.count.toNat ++ leBytes 4 header.filesize.toNat) := by
    simp only [DbHeader.toBytes, List.append_assoc]
    exact List.drop_left' (leBytes_length 4 _)
  have count : header.toBytes.drop 6
      = leBytes 2 header.count.toNat ++ leBytes 4 header.filesize.toNat := by
    rw [← List.drop_drop (i := 2) (j := 4), version]
    exact List.drop_left' (leBytes_length 2 _)
  have filesize : header.toBytes.drop 8 = leBytes 4 header.filesize.toNat ++ [] := by
    rw [← List.drop_drop (i := 2) (j := 6), count, List.append_nil]
    exact List.drop_left' (leBytes_length 2 _)
  rw [DbHeader.ofBytes, version, count, filesize, DbHeader.toBytes]
  simp only [List.append_assoc, load32_leBytes_append, load16_leBytes_append]

@[simp] theorem Employee.ofBytes_toBytes_append (employee : Employee) (rest : List UInt8)
    : Employee.ofBytes (employee.toBytes ++ rest) = employee := by
  have address : (employee.toBytes ++ rest).drop 256
      = employee.address.toList ++ (leBytes 4 employee.hours.toNat ++ rest) := by
    simp only [Employee.toBytes, List.append_assoc]
    exact List.drop_left' employee.name.toList_length
  have hours : (employee.toBytes ++ rest).drop 512
      = leBytes 4 employee.hours.toNat ++ rest := by
    rw [← List.drop_drop (i := 256) (j := 256), address]
    exact List.drop_left' employee.address.toList_length
  have name : (employee.toBytes ++ rest).take 256 = employee.name.toList := by
    simp only [Employee.toBytes, List.append_assoc]
    exact List.take_left' employee.name.toList_length
  rw [Employee.ofBytes, hours, address, name]
  rw [List.take_left' employee.address.toList_length]
  simp only [fit_toList, load32_leBytes_append]

/-- A header read from twelve bytes is stored as these bytes. -/
theorem DbHeader.toBytes_ofBytes {bytes : List UInt8} (size : bytes.length = headerSize)
    : (DbHeader.ofBytes bytes).toBytes = bytes := by
  have size : bytes.length = 12 := size
  have magic : leBytes 4 (load32 bytes).toNat = bytes.take 4 := leBytes_load32 (by omega)
  have version : leBytes 2 (load16 (bytes.drop 4)).toNat = (bytes.drop 4).take 2 :=
    leBytes_load16 (by rw [List.length_drop]; omega)
  have count : leBytes 2 (load16 (bytes.drop 6)).toNat = (bytes.drop 6).take 2 :=
    leBytes_load16 (by rw [List.length_drop]; omega)
  have filesize : leBytes 4 (load32 (bytes.drop 8)).toNat = bytes.drop 8 := by
    rw [leBytes_load32 (by rw [List.length_drop]; omega), List.take_of_length_le]
    rw [List.length_drop]
    omega
  calc (DbHeader.ofBytes bytes).toBytes
      = bytes.take 4 ++ (bytes.drop 4).take 2 ++ (bytes.drop 6).take 2 ++ bytes.drop 8 := by
        rw [DbHeader.toBytes, DbHeader.ofBytes, magic, version, count, filesize]
    _ = bytes.take 8 ++ bytes.drop 8 := by
        rw [← List.take_add, ← List.take_add]
    _ = bytes := List.take_append_drop 8 bytes

/-- A record read from the first 516 bytes is stored as these bytes. -/
theorem Employee.toBytes_ofBytes {bytes : List UInt8} (enough : employeeSize ≤ bytes.length)
    : (Employee.ofBytes bytes).toBytes = bytes.take employeeSize := by
  have enough : 516 ≤ bytes.length := enough
  have name : (fit 256 nul (bytes.take 256)).toList = bytes.take 256 :=
    fit_toList_of_length (by rw [List.length_take]; omega)
  have address : (fit 256 nul ((bytes.drop 256).take 256)).toList = (bytes.drop 256).take 256 :=
    fit_toList_of_length (by rw [List.length_take, List.length_drop]; omega)
  have hours : leBytes 4 (load32 (bytes.drop 512)).toNat = (bytes.drop 512).take 4 :=
    leBytes_load32 (by rw [List.length_drop]; omega)
  rw [Employee.toBytes, Employee.ofBytes, name, address, hours, ← List.take_add,
    ← List.take_add]

/-- Records read from bytes are stored as these bytes, by induction on their number. -/
theorem flatMap_employeesOfBytes {count : Nat} {bytes : List UInt8}
    (size : bytes.length = count * employeeSize)
    : (employeesOfBytes count bytes).flatMap Employee.toBytes = bytes := by
  induction count generalizing bytes with
  | zero => exact (List.length_eq_zero_iff.mp (by omega)).symm
  | succ count ih =>
      rw [Nat.succ_mul] at size
      have rest : (bytes.drop employeeSize).length = count * employeeSize := by
        rw [List.length_drop, size, Nat.add_sub_cancel]
      have enough : employeeSize ≤ bytes.length := by
        rw [size]
        exact Nat.le_add_left _ _
      rw [employeesOfBytes, List.flatMap_cons, Employee.toBytes_ofBytes enough, ih rest,
        List.take_append_drop]

/-- Stored records are read back in order, by induction over them. -/
theorem employeesOfBytes_flatMap (employees : List Employee) (rest : List UInt8)
    : employeesOfBytes employees.length (employees.flatMap Employee.toBytes ++ rest)
      = employees := by
  induction employees with
  | nil => rfl
  | cons employee later ih =>
      simp only [List.flatMap_cons, List.length_cons, employeesOfBytes, List.append_assoc,
        Employee.ofBytes_toBytes_append, List.drop_left' employee.toBytes_length, ih]

@[simp] theorem employeesOfBytes_length (count : Nat) (bytes : List UInt8)
    : (employeesOfBytes count bytes).length = count := by
  induction count generalizing bytes with
  | zero => rfl
  | succ count ih => simp [employeesOfBytes, ih]

end LowlevelAcademy.Database
