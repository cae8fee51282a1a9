import LowlevelAcademy.Database.Format
import LowlevelAcademy.Foundations.Scans

/-! Printing records with `%s`: a field is printed up to the next terminator, wherever behind
its start that is.
-/

namespace LowlevelAcademy.Database

open LowlevelAcademy.Foundations

/-- What `list_employees` prints for one record; the hours are printed with `%d`. -/
structure ListedEmployee where
  index : Nat
  name : List UInt8
  address : List UInt8
  hours : Int32
  deriving DecidableEq

/-- What `%s` prints. A scan that finds no terminator leaves the known memory. -/
def printString (memory : List UInt8) : Except Halt (List UInt8) :=
  if nul ∈ memory then .ok (cString nul memory) else .error .overrun

/-- The memory from `employees[i]` to the end of the array's block. -/
def recordsFrom (employees : Option (List Employee)) (i : Nat) : List UInt8 :=
  ((employees.getD []).drop i).flatMap Employee.toBytes

/-- The loop of `list_employees` from record `i` on. `behind` is the memory behind the array. -/
def listFrom (behind : List UInt8) (employees : Option (List Employee))
    : Nat → Nat → Except Halt (List ListedEmployee)
  | _, 0 => .ok []
  | i, remaining + 1 =>
      match employeeAt employees i with
      | .error halt => .error halt
      | .ok employee =>
          let memory := recordsFrom employees i ++ behind
          match printString memory with
          | .error halt => .error halt
          | .ok name =>
              match printString (memory.drop 256) with
              | .error halt => .error halt
              | .ok address =>
                  match listFrom behind employees (i + 1) remaining with
                  | .error halt => .error halt
                  | .ok later => .ok (⟨i, name, address, employee.hours.toInt32⟩ :: later)

/-- `list_employees` of both programs. -/
protected def listEmployees (behind : List UInt8) (db : Db) : Except Halt (List ListedEmployee) :=
  listFrom behind db.employees 0 db.header.count.toNat

/-- The two fields of the record at the start of `memory` are shown one by one, and to print
them nothing outside them is examined.
-/
structure ShowsFields (employee : Employee) (memory : List UInt8) : Prop where
  name : cString nul memory = cString nul employee.name.toList
  address : cString nul (memory.drop 256) = cString nul employee.address.toList
  nameInside : (stringScan nul memory 0).stop ≤ 256
  addressInside : (stringScan nul memory 256).stop ≤ 512

/-- A record with two terminated fields is shown so. -/
theorem showsFields_of_terminated {employee : Employee} {name address rest : List UInt8}
    (nameSize : name.length = 256) (addressSize : address.length = 256)
    (nameEnds : nul ∈ name) (addressEnds : nul ∈ address)
    (sameName : cString nul name = cString nul employee.name.toList)
    (sameAddress : cString nul address = cString nul employee.address.toList)
    : ShowsFields employee (name ++ (address ++ rest)) := by
  refine ⟨?_, ?_, ?_, ?_⟩
  · rw [cString_append_of_mem nameEnds, sameName]
  · rw [List.drop_left' nameSize, cString_append_of_mem addressEnds, sameAddress]
  · rw [← nameSize]
    exact (stringScan_inside_iff _ (Nat.zero_le _)).mpr nameEnds
  · have size : (name ++ address).length = 512 := by
      rw [List.length_append, nameSize, addressSize]
    rw [← List.append_assoc, ← size]
    refine (stringScan_inside_iff rest (by omega)).mpr ?_
    rwa [List.drop_left' nameSize]

/-- The memory from a record on starts with its two fields. -/
theorem recordsFrom_eq {records : List Employee} {i : Nat} {employee : Employee}
    (found : records[i]? = some employee)
    : recordsFrom (some records) i
      = employee.name.toList ++ (employee.address.toList
        ++ (leBytes 4 employee.hours.toNat ++ recordsFrom (some records) (i + 1))) := by
  obtain ⟨inside, rfl⟩ := List.getElem?_eq_some_iff.mp found
  rw [recordsFrom, Option.getD_some, List.drop_eq_getElem_cons inside, List.flatMap_cons,
    Employee.toBytes, recordsFrom, Option.getD_some]
  simp only [List.append_assoc]

/-- What is printed for a record whose fields are shown one by one. -/
def listedEmployee (index : Nat) (employee : Employee) : ListedEmployee :=
  ⟨index, cString nul employee.name.toList, cString nul employee.address.toList,
    employee.hours.toInt32⟩

/-- The loop prints the remaining records so when their fields are terminated, by induction on
them. `front` are the ones already printed.
-/
theorem listFrom_terminated (behind : List UInt8) (front todo : List Employee)
    (terminated
      : ∀ employee ∈ todo, nul ∈ employee.name.toList ∧ nul ∈ employee.address.toList)
    : listFrom behind (some (front ++ todo)) front.length todo.length
      = .ok (todo.mapIdx fun k employee => listedEmployee (front.length + k) employee) := by
  induction todo generalizing front with
  | nil => rfl
  | cons employee later ih =>
      obtain ⟨name, address⟩ := terminated employee (by simp)
      have found : (front ++ employee :: later)[front.length]? = some employee := by simp
      have current : employeeAt (some (front ++ employee :: later)) front.length
          = .ok employee := by
        simp [employeeAt]
      have shows : ShowsFields employee
          (recordsFrom (some (front ++ employee :: later)) front.length ++ behind) := by
        rw [recordsFrom_eq found]
        simp only [List.append_assoc]
        exact showsFields_of_terminated employee.name.toList_length
          employee.address.toList_length name address rfl rfl
      have inName : nul
          ∈ recordsFrom (some (front ++ employee :: later)) front.length ++ behind := by
        rw [recordsFrom_eq found]
        simp [name]
      have inAddress : nul
          ∈ (recordsFrom (some (front ++ employee :: later)) front.length ++ behind).drop
            256 := by
        rw [recordsFrom_eq found]
        simp only [List.append_assoc]
        rw [List.drop_left' employee.name.toList_length]
        simp [address]
      have rest := ih (front ++ [employee]) fun other member =>
        terminated other (List.mem_cons_of_mem _ member)
      simp only [List.length_append, List.length_singleton, List.append_assoc,
        List.singleton_append] at rest
      simp only [List.length_cons, listFrom, current, printString, if_pos inName,
        if_pos inAddress, rest, shows.name, shows.address, List.mapIdx_cons, Nat.add_zero]
      simp only [listedEmployee, Nat.add_assoc, Nat.add_comm 1]

/-- In the memory behind the start of each record's address there is a terminator somewhere. -/
def ListingEnds (behind : List UInt8) (records : List Employee) : Prop :=
  ∀ i < records.length, nul ∈ (recordsFrom (some records) i ++ behind).drop 256

instance (behind : List UInt8) (records : List Employee)
    : Decidable (ListingEnds behind records) :=
  inferInstanceAs (Decidable (∀ i < records.length, _))

/-- The loop over the records from `i` on ends exactly when there is one behind each of them, by
induction on the remaining ones.
-/
theorem listFrom_ok_iff (behind : List UInt8) (records : List Employee) (i remaining : Nat)
    (all : i + remaining = records.length)
    : (∃ shown, listFrom behind (some records) i remaining = .ok shown)
      ↔ ∀ k, i ≤ k → k < records.length → nul ∈ (recordsFrom (some records) k ++ behind).drop 256
    := by
  induction remaining generalizing i with
  | zero => exact iff_of_true ⟨[], rfl⟩ fun k _ _ => by omega
  | succ remaining ih =>
      have inside : i < records.length := by omega
      have current : employeeAt (some records) i = .ok records[i] := by simp [employeeAt, inside]
      have later := ih (i + 1) (by omega)
      have split : (∀ k, i ≤ k → k < records.length
            → nul ∈ (recordsFrom (some records) k ++ behind).drop 256)
          ↔ nul ∈ (recordsFrom (some records) i ++ behind).drop 256
            ∧ ∀ k, i + 1 ≤ k → k < records.length
              → nul ∈ (recordsFrom (some records) k ++ behind).drop 256 := by
        constructor
        · exact fun each => ⟨each i (Nat.le_refl i) inside, fun k above => each k (by omega)⟩
        · rintro ⟨first, rest⟩ k above below
          rcases Nat.eq_or_lt_of_le above with rfl | beyond
          · exact first
          · exact rest k beyond below
      rw [split, ← later]
      simp only [listFrom, current, printString]
      by_cases address : nul ∈ (recordsFrom (some records) i ++ behind).drop 256
      · rw [if_pos (List.mem_of_mem_drop address), if_pos address]
        cases listFrom behind (some records) (i + 1) remaining <;> simp [address]
      · refine iff_of_false ?_ fun both => address both.1
        split_ifs <;> simp

/-- Listing held records ends exactly when there is a terminator behind each of them. -/
theorem listEmployees_ok_iff {behind : List UInt8} {db : Db} {records : List Employee}
    (holds : db.Holds records)
    : (∃ shown, Database.listEmployees behind db = .ok shown) ↔ ListingEnds behind records := by
  rw [Database.listEmployees, holds.employees, holds.count,
    listFrom_ok_iff behind records 0 records.length (by omega)]
  exact ⟨fun each i => each i (Nat.zero_le i), fun each i _ => each i⟩

/-- A terminator behind the records is behind each of them. -/
theorem listingEnds_of_mem {behind : List UInt8} (ended : nul ∈ behind)
    (records : List Employee)
    : ListingEnds behind records := by
  intro i inside
  have found : records[i]? = some records[i] := List.getElem?_eq_getElem inside
  rw [recordsFrom_eq found]
  simp only [List.append_assoc]
  rw [List.drop_left' (Employee.name _).toList_length]
  simp [ended]

/-- Without records a listing that should show some halts at once. -/
theorem listEmployees_null {behind : List UInt8} {db : Db} (null : db.employees = none)
    (counted : db.header.count.toNat ≠ 0)
    : Database.listEmployees behind db = .error .nullArray := by
  obtain ⟨count, counts⟩ := Nat.exists_eq_succ_of_ne_zero counted
  rw [Database.listEmployees, null, counts]
  rfl

end LowlevelAcademy.Database
